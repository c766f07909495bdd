import TwinGraph.Proofs.Query.Joining

/-! Cutting off the end of a text. Behind what it reads a scanner looks only for more of the same
kind, so with less text behind it reads the same, and each token is read again from every shorter
text that still has all of it. -/
namespace TwinGraph

open Query Scan

/-- If something is read in front of the rest, it is read from the part that is not cut off. -/
theorem exists_cons_of_front {s front rest back : Text} (hne : front ≠ [])
    (h : s ++ back = front ++ (rest ++ back)) : ∃ c cs, s = c :: cs := by
  rw [← List.append_assoc] at h
  rw [List.append_cancel_right h]
  exact List.exists_cons_of_ne_nil (List.append_ne_nil_of_left_ne_nil hne rest)

/-- The end of the text can be cut off if it is left in the rest. -/
structure Severable {α : Type} (p : Scanner α) : Prop where
  takes : ∀ {s rest a}, p s = some (a, rest) → ∃ front, front ≠ [] ∧ s = front ++ rest
  reads : ∀ {s rest back a}, p (s ++ back) = some (a, rest ++ back) → p s = some (a, rest)
  fails : ∀ {s back}, p (s ++ back) = none → p s = none

namespace Severable

variable {α β : Type} {p : Scanner α} {s rest back : Text} {a : α}

theorem shortens (hp : Severable p) : Shortens p := by
  intro s a rest h
  obtain ⟨front, hne, rfl⟩ := hp.takes h
  have hpos := List.length_pos_iff.mpr hne
  rw [List.length_append]
  omega

theorem optional_takes (hp : Severable p) (s : Text) :
    ∃ front, s = front ++ (Scan.optional p s).2 := by
  unfold Scan.optional
  split
  · next h =>
    obtain ⟨front, -, heq⟩ := hp.takes h
    exact ⟨front, heq⟩
  · exact ⟨[], rfl⟩

theorem optional (hp : Severable p) {o : Option α}
    (h : Scan.optional p (s ++ back) = (o, rest ++ back)) : Scan.optional p s = (o, rest) := by
  unfold Scan.optional at h
  split at h
  · next hread =>
    cases h
    exact optional_of_some (hp.reads hread)
  · next hread =>
    rw [Prod.mk.injEq] at h
    obtain ⟨rfl, heq⟩ := h
    obtain rfl := List.append_cancel_right heq
    exact optional_of_none (hp.fails hread)

theorem many_takes (hp : Severable p) (s : Text) : ∃ front, s = front ++ (Scan.many p s).2 := by
  induction hlength : s.length using Nat.strongRecOn generalizing s with
  | _ n ih =>
    cases hread : p s with
    | none =>
      rw [Scan.many, upTo_of_none hread]
      exact ⟨[], rfl⟩
    | some found =>
      have hlt := hp.shortens hread
      obtain ⟨front, -, hs⟩ := hp.takes hread
      obtain ⟨more, hmore⟩ := ih _ (by omega) found.2 rfl
      rw [many_of_some hp.shortens hread]
      exact ⟨front ++ more, by rw [List.append_assoc, ← hmore, hs]⟩

theorem many (hp : Severable p) {as : List α} (h : Scan.many p (s ++ back) = (as, rest ++ back)) :
    Scan.many p s = (as, rest) := by
  induction hlength : s.length using Nat.strongRecOn generalizing s as with
  | _ n ih =>
    cases hread : p (s ++ back) with
    | none =>
      rw [Scan.many, upTo_of_none hread, Prod.mk.injEq] at h
      obtain ⟨rfl, heq⟩ := h
      obtain rfl := List.append_cancel_right heq
      rw [Scan.many, upTo_of_none (hp.fails hread)]
    | some found =>
      obtain ⟨a, behind⟩ := found
      rw [many_of_some hp.shortens hread, Prod.mk.injEq] at h
      obtain ⟨rfl, hrest⟩ := h
      obtain ⟨front, hbehind⟩ := hp.many_takes behind
      rw [hrest, ← List.append_assoc] at hbehind
      subst hbehind
      have hsome := hp.reads hread
      have hlt := hp.shortens hsome
      have hmore : Scan.many p (front ++ rest) = ((Scan.many p (front ++ rest ++ back)).1, rest) :=
        ih _ (by omega) (by rw [← hrest]) rfl
      rw [many_of_some hp.shortens hsome, hmore]

theorem run {start more : Char → Bool} {p : Scanner Text} (hnil : p [] = none)
    (hcons : ∀ c s, p (c :: s) =
      if start c then some (c :: s.takeWhile more, s.dropWhile more) else none) : Severable p := by
  have htakes : ∀ {s rest t}, p s = some (t, rest) → ∃ front, front ≠ [] ∧ s = front ++ rest := by
    intro s rest t h
    cases s with
    | nil =>
      rw [hnil] at h
      cases h
    | cons c s =>
      rw [hcons] at h
      split at h
      · cases h
        exact ⟨c :: s.takeWhile more, List.cons_ne_nil _ _,
          by rw [List.cons_append, List.takeWhile_append_dropWhile]⟩
      · cases h
  refine ⟨htakes, fun {s rest back t} h => ?_, fun {s back} h => ?_⟩
  · obtain ⟨front, hne, heq⟩ := htakes h
    obtain ⟨c, s, rfl⟩ := exists_cons_of_front hne heq
    rw [List.cons_append, hcons] at h
    split at h
    · next hstart =>
      rw [Option.some.injEq, Prod.mk.injEq] at h
      obtain ⟨rfl, hdrop⟩ := h
      have hs : s = (s ++ back).takeWhile more ++ rest := by
        refine (List.append_left_inj back).mp ?_
        rw [List.append_assoc, ← hdrop, List.takeWhile_append_dropWhile]
      have hmore : ∀ d ∈ (s ++ back).takeWhile more, more d = true := fun d hd =>
        List.all_eq_true.mp List.all_takeWhile d hd
      have hhead : rest.head?.any more = false := by
        have hend := Token.any_head?_dropWhile more (s ++ back)
        rw [hdrop] at hend
        cases rest with
        | nil => rfl
        | cons d rest => exact hend
      obtain ⟨htake', hdrop'⟩ := span_append rest hmore hhead
      rw [← hs] at htake' hdrop'
      rw [hcons, if_pos hstart, htake', hdrop']
    · cases h
  · cases s with
    | nil => exact hnil
    | cons c s =>
      rw [List.cons_append, hcons] at h
      split at h
      · cases h
      · next hstart => rw [hcons, if_neg hstart]

theorem behind (start : Char → Bool) {p : Char → Scanner α} {f : Char → α → β} {q : Scanner β}
    (hp : ∀ c, start c = true → Severable (p c)) (hnil : q [] = none)
    (hcons : ∀ c s, q (c :: s) =
      if start c then (p c s).map fun (a, rest) => (f c a, rest) else none) : Severable q := by
  have htakes : ∀ {s rest b}, q s = some (b, rest) →
      ∃ c cs a, s = c :: cs ∧ start c = true ∧ p c cs = some (a, rest) ∧ b = f c a := by
    intro s rest b h
    cases s with
    | nil =>
      rw [hnil] at h
      cases h
    | cons c s =>
      rw [hcons] at h
      split at h
      · next hstart =>
        obtain ⟨⟨a, rest'⟩, hread, heq⟩ := Option.map_eq_some_iff.mp h
        cases heq
        exact ⟨c, s, a, rfl, hstart, hread, rfl⟩
      · cases h
  refine ⟨fun {s rest b} h => ?_, fun {s rest back b} h => ?_, fun {s back} h => ?_⟩
  · obtain ⟨c, cs, a, rfl, hstart, hread, -⟩ := htakes h
    obtain ⟨front, -, rfl⟩ := (hp c hstart).takes hread
    exact ⟨c :: front, List.cons_ne_nil _ _, rfl⟩
  · obtain ⟨c, cs, a, heq, hstart, hread, rfl⟩ := htakes h
    obtain ⟨front, -, rfl⟩ := (hp c hstart).takes hread
    obtain rfl : s = c :: (front ++ rest) := by
      refine (List.append_left_inj back).mp ?_
      rw [heq, List.cons_append, List.append_assoc]
    rw [← List.append_assoc] at hread
    rw [hcons, if_pos hstart, (hp c hstart).reads hread]
    rfl
  · cases s with
    | nil => exact hnil
    | cons c s =>
      rw [List.cons_append, hcons] at h
      rw [hcons]
      split at h
      · next hstart => rw [if_pos hstart, (hp c hstart).fails (Option.map_eq_none_iff.mp h)]; rfl
      · next hstart => rw [if_neg hstart]

end Severable

namespace Query

theorem severable_scanDigits : Severable scanDigits := .run rfl fun _ _ => rfl

theorem severable_scanName : Severable scanName := .run rfl fun _ _ => rfl

end Query

namespace Token

theorem severable_scanSpace : Severable scanSpace := .run rfl fun _ _ => rfl

theorem severable_closeQuote (q : Char) : Severable (closeQuote q) where
  takes h := by
    obtain ⟨rfl, hne⟩ := closeQuote_eq_some h
    exact ⟨_, hne, rfl⟩
  reads {s rest back body} h := by
    have hs := (closeQuote_eq_some h).1
    rw [← List.append_assoc] at hs
    rw [List.append_cancel_right hs]
    simpa using closeQuote_append (closeQuote_body h) rest
  fails {s back} h := by
    cases hclose : closeQuote q s with
    | none => rfl
    | some found =>
      rw [closeQuote_append hclose] at h
      cases h

theorem severable_scanString : Severable scanString :=
  .behind isQuote (fun c _ => severable_closeQuote c) rfl fun _ _ => rfl

theorem severable_point {p : Scanner Text} (hp : Severable p) :
    Severable (fun s => do
      let s ← Text.after? ['.'] s
      let (t, s) ← p s
      some ('.' :: t, s)) := by
  refine .behind (fun c => c == '.') (f := fun c t => c :: t) (fun _ _ => hp) rfl ?_
  intro c s
  by_cases hc : '.' = c
  · subst hc
    cases hread : p s <;> simp [Text.after?, hread]
  · simp [Text.after?, hc, Ne.symm hc]

theorem severable_scanFraction : Severable scanFraction := severable_point severable_scanDigits

def scanSigned : Scanner Text := fun s => do
  let (sign, s) := optional scanSign s
  let (digits, s) ← scanDigits s
  some (sign.toList ++ digits, s)

theorem scanSigned_cons (c : Char) (s : Text) : scanSigned (c :: s) =
    if c = '+' ∨ c = '-' then (scanDigits s).map fun (digits, rest) => (c :: digits, rest)
    else scanDigits (c :: s) := by
  split
  · next hc =>
    have hsign : scanSign (c :: s) = some (c, s) := by rcases hc with rfl | rfl <;> rfl
    simp only [scanSigned, optional_of_some hsign]
    cases scanDigits s <;> rfl
  · next hc =>
    rw [not_or] at hc
    have hsign : scanSign (c :: s) = none := by
      unfold scanSign
      split <;> simp_all
    simp only [scanSigned, optional_of_none hsign]
    cases scanDigits (c :: s) <;> rfl

theorem severable_scanSigned : Severable scanSigned := by
  have htakes : ∀ {s rest t}, scanSigned s = some (t, rest) →
      ∃ front, front ≠ [] ∧ s = front ++ rest := by
    intro s rest t h
    cases s with
    | nil => cases h
    | cons c s =>
      rw [scanSigned_cons] at h
      split at h
      · obtain ⟨⟨digits, rest'⟩, hdigits, heq⟩ := Option.map_eq_some_iff.mp h
        cases heq
        obtain ⟨front, -, rfl⟩ := severable_scanDigits.takes hdigits
        exact ⟨c :: front, List.cons_ne_nil _ _, rfl⟩
      · exact severable_scanDigits.takes h
  refine ⟨htakes, fun {s rest back t} h => ?_, fun {s back} h => ?_⟩
  · obtain ⟨front, hne, heq⟩ := htakes h
    obtain ⟨c, s, rfl⟩ := exists_cons_of_front hne heq
    rw [List.cons_append, scanSigned_cons] at h
    rw [scanSigned_cons]
    split at h
    · next hsign =>
      obtain ⟨⟨digits, rest'⟩, hdigits, heq⟩ := Option.map_eq_some_iff.mp h
      cases heq
      rw [if_pos hsign, severable_scanDigits.reads hdigits]
      rfl
    · next hsign =>
      rw [if_neg hsign]
      exact severable_scanDigits.reads h
  · cases s with
    | nil => rfl
    | cons c s =>
      rw [List.cons_append, scanSigned_cons] at h
      rw [scanSigned_cons]
      split at h
      · next hsign =>
        rw [if_pos hsign, severable_scanDigits.fails (Option.map_eq_none_iff.mp h)]
        rfl
      · next hsign =>
        rw [if_neg hsign]
        exact severable_scanDigits.fails h

theorem severable_scanExponent : Severable scanExponent := by
  refine .behind (fun c => c == 'e' || c == 'E') (f := fun c t => c :: t)
    (fun _ _ => severable_scanSigned) rfl ?_
  intro c s
  simp only [scanExponent, scanSigned, Bool.or_eq_true, beq_iff_eq]
  split
  · cases scanDigits (optional scanSign s).2 <;> rfl
  · rfl

theorem severable_scanNumber : Severable scanNumber where
  takes h := ⟨_, (scanNumber_readsText h).2.1, (scanNumber_readsText h).1⟩
  reads {s rest back t} h := by
    simp only [scanNumber, Option.bind_eq_bind, Option.bind_eq_some_iff, Option.some.injEq,
      Prod.mk.injEq] at h
    obtain ⟨⟨digits, s₁⟩, hdigits, rfl, hrest⟩ := h
    obtain ⟨front₁, hfront₁⟩ := severable_scanFraction.optional_takes s₁
    obtain ⟨front₂, hfront₂⟩ :=
      severable_scanExponent.optional_takes (optional scanFraction s₁).2
    rw [hrest, ← List.append_assoc] at hfront₂
    rw [hfront₂, ← List.append_assoc] at hfront₁
    subst hfront₁
    have hfraction : optional scanFraction (front₁ ++ (front₂ ++ rest)) =
        ((optional scanFraction (front₁ ++ (front₂ ++ rest) ++ back)).1, front₂ ++ rest) :=
      severable_scanFraction.optional (Prod.ext rfl hfront₂)
    have hexponent : optional scanExponent (front₂ ++ rest) =
        ((optional scanExponent (front₂ ++ rest ++ back)).1, rest) :=
      severable_scanExponent.optional (Prod.ext rfl (by rw [← hfront₂, hrest]))
    simp only [scanNumber, severable_scanDigits.reads hdigits, Option.bind_eq_bind,
      Option.bind_some, hfraction, hexponent, hfront₂]
  fails {s back} h := by
    cases hdigits : scanDigits (s ++ back) with
    | none =>
      rw [scanNumber, severable_scanDigits.fails hdigits]
      rfl
    | some found =>
      rw [scanNumber, hdigits] at h
      cases h

theorem severable_scanSegment : Severable scanSegment where
  takes h := ⟨_, (scanSegment_readsText h).2.1, (scanSegment_readsText h).1⟩
  reads {s rest back t} h := by
    have hs := (scanSegment_readsText h).1
    rw [← List.append_assoc] at hs
    have hends := scanSegment_ends h
    have hrest : rest.head?.any isNameChar = false := by
      cases rest with
      | nil => rfl
      | cons c rest => exact hends
    rw [List.append_cancel_right hs, scanSegment_append (finds_scanSegment _ _ _ h) hrest]
  fails {s back} h := by
    have hname : scanName ((s ++ back).dropWhile (· == '$')) = none := by
      cases hname : scanName ((s ++ back).dropWhile (· == '$')) with
      | none => rfl
      | some found =>
        rw [scanSegment, hname] at h
        cases h
    suffices hnone : scanName (s.dropWhile (· == '$')) = none by
      rw [scanSegment, hnone]
      rfl
    rw [List.dropWhile_append] at hname
    split at hname
    · next hempty =>
      rw [List.isEmpty_iff.mp hempty]
      rfl
    · exact severable_scanName.fails hname

theorem severable_scanStep : Severable scanStep := severable_point severable_scanSegment

theorem severable_scanPath : Severable scanPath where
  takes h := ⟨_, (scanPath_readsText h).2.1, (scanPath_readsText h).1⟩
  reads {s rest back t} h := by
    rw [scanPath_eq] at h ⊢
    simp only [Option.bind_eq_bind, Option.bind_eq_some_iff, Option.some.injEq,
      Prod.mk.injEq] at h
    obtain ⟨⟨first, s₁⟩, hfirst, rfl, hrest⟩ := h
    obtain ⟨front, hfront⟩ := severable_scanStep.many_takes s₁
    rw [hrest, ← List.append_assoc] at hfront
    subst hfront
    have hmore : many scanStep (front ++ rest) =
        ((many scanStep (front ++ rest ++ back)).1, rest) :=
      severable_scanStep.many (Prod.ext rfl hrest)
    simp only [severable_scanSegment.reads hfirst, Option.bind_eq_bind, Option.bind_some, hmore]
  fails {s back} h := by
    cases hfirst : scanSegment (s ++ back) with
    | none =>
      rw [scanPath_eq, severable_scanSegment.fails hfirst]
      rfl
    | some found =>
      rw [scanPath_eq, hfirst] at h
      cases h

theorem scanOperator_sever {s rest back : Text} {t : Token}
    (h : scanOperator (s ++ back) = some (t, rest ++ back)) : scanOperator s = some (t, rest) := by
  have hcut : ∀ front : Text, s ++ back = front ++ (rest ++ back) → s = front ++ rest := by
    intro front heq
    rw [← List.append_assoc] at heq
    exact List.append_cancel_right heq
  unfold scanOperator at h
  split at h
  case h_8 => cases h
  case h_7 c cs hle hge hne hlg hopening hclosing heq =>
    cases h
    obtain rfl := hcut [c] heq
    rw [List.singleton_append, scanOperator]
    · exact fun s hc hs => hle (s ++ back) hc (by rw [hs]; rfl)
    · exact fun s hc hs => hge (s ++ back) hc (by rw [hs]; rfl)
    · exact fun s hc hs => hne (s ++ back) hc (by rw [hs]; rfl)
    · exact fun s hc hs => hlg (s ++ back) hc (by rw [hs]; rfl)
    · exact hopening
    · exact hclosing
  case h_1 heq => cases h; rw [hcut ['<', '='] heq]; rfl
  case h_2 heq => cases h; rw [hcut ['>', '='] heq]; rfl
  case h_3 heq => cases h; rw [hcut ['!', '='] heq]; rfl
  case h_4 heq => cases h; rw [hcut ['<', '>'] heq]; rfl
  case h_5 heq => cases h; rw [hcut ['('] heq]; rfl
  case h_6 heq => cases h; rw [hcut [')'] heq]; rfl

def firstOf (p : Scanner Text) (f : Text → Token) (next : Scanner Token) : Scanner Token := fun s =>
  ((p s).map (Prod.map f id)).or (next s)

theorem firstOf_sever {p : Scanner Text} (hp : Severable p) {f : Text → Token}
    {next : Scanner Token}
    {s rest back : Text} {t : Token}
    (hnext : next (s ++ back) = some (t, rest ++ back) → next s = some (t, rest))
    (h : firstOf p f next (s ++ back) = some (t, rest ++ back)) :
    firstOf p f next s = some (t, rest) := by
  rcases Option.or_eq_some_iff.mp h with hread | ⟨hnone, hread⟩
  · obtain ⟨⟨x, behind⟩, hx, heq⟩ := Option.map_eq_some_iff.mp hread
    cases heq
    rw [firstOf, hp.reads hx]
    rfl
  · rw [firstOf, hp.fails (Option.map_eq_none_iff.mp hnone)]
    exact hnext hread

theorem scan_eq_firstOf (s : Text) : scan s =
    firstOf scanString literal (firstOf scanNumber literal
      (firstOf scanPath word (firstOf scanSpace space scanOperator))) s := by
  unfold scan firstOf
  cases scanString s with
  | some => rfl
  | none =>
    cases scanNumber s with
    | some => rfl
    | none =>
      cases scanPath s with
      | some => rfl
      | none => cases scanSpace s <;> rfl

/-- A token that is read with more text behind it is read without that text. -/
theorem scan_sever {s rest back : Text} {t : Token}
    (h : scan (s ++ back) = some (t, rest ++ back)) : scan s = some (t, rest) := by
  rw [scan_eq_firstOf] at h ⊢
  refine firstOf_sever severable_scanString (fun h => ?_) h
  refine firstOf_sever severable_scanNumber (fun h => ?_) h
  refine firstOf_sever severable_scanPath (fun h => ?_) h
  exact firstOf_sever severable_scanSpace scanOperator_sever h

end Token
end TwinGraph
