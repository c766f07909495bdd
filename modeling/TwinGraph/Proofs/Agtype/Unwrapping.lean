import TwinGraph.Agtype.Annotation
import TwinGraph.Proofs.Json.RoundTrip

/-! What is left of the text of a value when its annotations are taken out. The text of a value is
read the same wherever a value may start, whatever was read before. -/
namespace TwinGraph.Agtype

open Json

/-- The mark that a number may carry. -/
def Numeric (s : Text) : Prop := s = [] ∨ s = "::numeric".toList

namespace Unwrapping

def append (t : Text) (u : Unwrapping) : Unwrapping := { u with current := t.reverse ++ u.current }

def settled (u : Unwrapping) : Unwrapping := u.leave.settle

/-- A value may start here. -/
def Waits (u : Unwrapping) : Prop := (u.place = .plain ∨ u.place = .colon) ∧ u.closed = none

/-- A value may have ended here. -/
def Rests (u : Unwrapping) : Prop := u.place = .plain ∨ ∃ letters, u.place = .tag letters

theorem append_append (s t : Text) (u : Unwrapping) :
    (u.append s).append t = u.append (s ++ t) := by
  simp [append]

theorem settle_of_closed {u : Unwrapping} (h : u.closed = none) : u.settle = u := by
  unfold settle
  rw [h]

theorem closed_settle (u : Unwrapping) : u.settle.closed = none := by
  unfold settle
  split
  · rfl
  · assumption

theorem place_settle (u : Unwrapping) : u.settle.place = u.place := by
  unfold settle
  split <;> rfl

theorem settle_settle (u : Unwrapping) : u.settle.settle = u.settle :=
  settle_of_closed u.closed_settle

theorem closed_settled (u : Unwrapping) : u.settled.closed = none := u.leave.closed_settle

theorem settled_of_plain {u : Unwrapping} (h : u.place = .plain) : u.settled = u.settle := by
  unfold settled leave
  rw [h]

theorem settled_of_tag {u : Unwrapping} {letters : Text} (h : u.place = .tag letters) :
    u.settled = { u.annotate letters.reverse with place := .plain }.settle := by
  unfold settled leave
  rw [h]

theorem Waits.of_plain {u : Unwrapping} (hp : u.place = .plain) (hc : u.closed = none) : u.Waits :=
  ⟨Or.inl hp, hc⟩

theorem Waits.settled_eq {u : Unwrapping} (h : u.Waits) : u.settled = u.leave := by
  obtain ⟨hplace | hplace, hclosed⟩ := h
  · exact settle_of_closed (by unfold leave; rw [hplace]; exact hclosed)
  · refine settle_of_closed ?_
    unfold leave
    rw [hplace]
    exact u.closed_settle

theorem Waits.place_settled {u : Unwrapping} (h : u.Waits) : u.settled.place = .plain := by
  rw [h.settled_eq]
  unfold leave
  rcases h.1 with hplace | hplace <;> rw [hplace]
  exact hplace

theorem Waits.step {u : Unwrapping} (h : u.Waits) {c : Char} (hc : c ≠ ':') :
    u.step c = u.settled.plainStep c := by
  rw [h.settled_eq]
  unfold Unwrapping.step leave
  rcases h.1 with hplace | hplace <;> rw [hplace]
  dsimp only
  rw [if_neg hc]

theorem plainStep_settle {c : Char} (hc : c = ',' ∨ c = ']' ∨ c = '}') (u : Unwrapping) :
    u.settle.plainStep c = u.plainStep c := by
  rcases hc with rfl | rfl | rfl <;>
  · unfold plainStep closeGroup
    rw [settle_settle]
    rfl

theorem Rests.step {u : Unwrapping} (h : u.Rests) {c : Char} (hc : c = ',' ∨ c = ']' ∨ c = '}') :
    u.step c = u.settled.plainStep c := by
  unfold settled
  rw [plainStep_settle hc]
  have halpha : c.isAlpha = false := by rcases hc with rfl | rfl | rfl <;> decide
  unfold Unwrapping.step leave
  rcases h with hplace | ⟨letters, hplace⟩ <;> rw [hplace]
  dsimp only
  rw [if_neg (by simp [halpha])]

/-- From wherever a value may start, the first text is read, and the second is what is left of
it. -/
def Yields (s t : Text) : Prop :=
  ∀ u : Unwrapping, u.Waits →
    (s.foldl step u).Rests ∧ (s.foldl step u).settled = u.settled.append t

def Closes (s t : Text) : Prop :=
  ∀ u : Unwrapping, u.Waits →
    s.foldl step u = ⟨.plain, u.settled.outer, u.settled.current, some t.reverse⟩

def isOrdinary (c : Char) : Bool :=
  c != '"' && c != '{' && c != '[' && c != '}' && c != ']' && c != ':' && !isBlank c

theorem ne_of_isOrdinary {c d : Char} (h : isOrdinary c = true) (hd : isOrdinary d = false) :
    c ≠ d := by
  rintro rfl
  rw [h] at hd
  cases hd

theorem plainStep_ordinary {u : Unwrapping} {c : Char} (h : isOrdinary c = true) :
    u.plainStep c = u.settle.append [c] := by
  have hne : ∀ d, isOrdinary d = false → c ≠ d := fun d hd => ne_of_isOrdinary h hd
  have hblank : isBlank c = false := by
    simp only [isOrdinary, Bool.and_eq_true, Bool.not_eq_true'] at h
    exact h.2
  unfold plainStep
  rw [if_neg (hne '"' (by decide)),
    if_neg (not_or.mpr ⟨hne '{' (by decide), hne '[' (by decide)⟩),
    if_neg (not_or.mpr ⟨hne '}' (by decide), hne ']' (by decide)⟩),
    if_neg (hne ':' (by decide)), if_neg (by simp [hblank])]
  rfl

theorem foldl_ordinary {s : Text} (hs : s.all isOrdinary = true) {u : Unwrapping}
    (hplace : u.place = .plain) (hclosed : u.closed = none) : s.foldl step u = u.append s := by
  induction s generalizing u with
  | nil => rfl
  | cons c s ih =>
    rw [List.all_cons, Bool.and_eq_true] at hs
    have hstep : u.step c = u.append [c] := by
      unfold step
      rw [hplace]
      dsimp only
      rw [plainStep_ordinary hs.1, settle_of_closed hclosed]
    rw [List.foldl_cons, hstep, ih hs.2 (u := u.append [c]) hplace hclosed, append_append]
    rfl

theorem Waits.foldl_ordinary {u : Unwrapping} (h : u.Waits) {s : Text} (hne : s ≠ [])
    (hs : s.all isOrdinary = true) : s.foldl Unwrapping.step u = u.settled.append s := by
  cases s with
  | nil => exact absurd rfl hne
  | cons c s =>
    rw [List.all_cons, Bool.and_eq_true] at hs
    have hstep : u.step c = u.settled.append [c] := by
      rw [h.step (ne_of_isOrdinary hs.1 (by decide)), plainStep_ordinary hs.1,
        settle_of_closed u.closed_settled]
    rw [List.foldl_cons, hstep, Unwrapping.foldl_ordinary hs.2 (u := u.settled.append [c])
      h.place_settled u.closed_settled, append_append]
    rfl

theorem Yields.of_append {s t : Text}
    (h : ∀ u : Unwrapping, u.Waits → s.foldl step u = u.settled.append t) : Yields s t := by
  intro u hu
  rw [h u hu]
  refine ⟨Or.inl hu.place_settled, ?_⟩
  rw [settled_of_plain (u := u.settled.append t) hu.place_settled]
  exact settle_of_closed u.closed_settled

theorem yields_ordinary {s : Text} (hne : s ≠ []) (hs : s.all isOrdinary = true) : Yields s s :=
  .of_append fun _ hu => hu.foldl_ordinary hne hs

theorem isBlank_of_isSpace {c : Char} (h : isSpace c = true) : isBlank c = true := by
  simp only [isSpace, Bool.or_eq_true, beq_iff_eq] at h
  rcases h with ((rfl | rfl) | rfl) | rfl <;> decide

theorem plainStep_blank {u : Unwrapping} (hclosed : u.closed = none) {c : Char}
    (hc : isSpace c = true) : u.plainStep c = u.append [c] := by
  have hblank := isBlank_of_isSpace hc
  have hne : ∀ d, isSpace d = false → c ≠ d := by
    rintro d hd rfl
    rw [hc] at hd
    cases hd
  unfold plainStep
  rw [if_neg (hne '"' (by decide)),
    if_neg (not_or.mpr ⟨hne '{' (by decide), hne '[' (by decide)⟩),
    if_neg (not_or.mpr ⟨hne '}' (by decide), hne ']' (by decide)⟩),
    if_neg (hne ':' (by decide)), if_pos hblank, hclosed]
  rfl

theorem Waits.foldl_gap {u : Unwrapping} (h : u.Waits) {gap : Text} (hgap : Gap gap) :
    (gap.foldl Unwrapping.step u).Waits ∧
      (gap.foldl Unwrapping.step u).settled = u.settled.append gap := by
  induction gap generalizing u with
  | nil => exact ⟨h, rfl⟩
  | cons c gap ih =>
    have hc := hgap c List.mem_cons_self
    have hcolon : c ≠ ':' := by
      rintro rfl
      cases hc
    have hstep : u.step c = u.settled.append [c] := by
      rw [h.step hcolon, plainStep_blank u.closed_settled hc]
    have hwaits : (u.settled.append [c]).Waits := .of_plain h.place_settled u.closed_settled
    have hsettled : (u.settled.append [c]).settled = u.settled.append [c] := by
      rw [settled_of_plain (u := u.settled.append [c]) h.place_settled]
      exact settle_of_closed u.closed_settled
    obtain ⟨hmore, heq⟩ := ih hwaits fun d hd => hgap d (List.mem_cons_of_mem _ hd)
    rw [List.foldl_cons, hstep]
    refine ⟨hmore, ?_⟩
    rw [heq, hsettled, append_append]
    rfl

theorem hexDigit_ordinary {n : Nat} (h : n < 16) : hexDigit n ≠ '\\' ∧ hexDigit n ≠ '"' := by
  have hall : ∀ n < 16, hexDigit n ≠ '\\' ∧ hexDigit n ≠ '"' := by decide
  exact hall n h

theorem foldl_quoted {s : Text} (hs : ∀ c ∈ s, c ≠ '\\' ∧ c ≠ '"') {u : Unwrapping}
    (h : u.place = .quoted) : s.foldl step u = u.append s := by
  induction s generalizing u with
  | nil => rfl
  | cons c s ih =>
    rw [List.forall_mem_cons] at hs
    have hstep : u.step c = u.append [c] := by
      unfold step
      rw [h]
      dsimp only
      rw [if_neg hs.1.1, if_neg hs.1.2]
      rfl
    rw [List.foldl_cons, hstep, ih hs.2 (u := u.append [c]) h, append_append]
    rfl

theorem foldl_escaped {u : Unwrapping} (h : u.place = .quoted) (c : Char) :
    ['\\', c].foldl step u = u.append ['\\', c] := by
  unfold List.foldl step
  rw [h]
  dsimp only
  rw [if_pos rfl]
  show ({ u.write '\\' with place := Place.escaped } : Unwrapping).step c = _
  simp [step, write, append, h]

theorem foldl_escapeChar {u : Unwrapping} (h : u.place = .quoted) (c : Char) :
    (escapeChar c).foldl step u = u.append (escapeChar c) := by
  unfold escapeChar
  split
  · exact foldl_escaped h _
  · next hquote =>
    split
    · exact foldl_escaped h _
    · next hslash =>
      iterate 5 (split; · exact foldl_escaped h _)
      split
      · next hlow =>
        have hhigh := hexDigit_ordinary (n := c.toNat / 16) (by omega)
        have hrest := hexDigit_ordinary (n := c.toNat % 16) (by omega)
        have hdigits : ∀ d ∈ ['0', '0', hexDigit (c.toNat / 16), hexDigit (c.toNat % 16)],
            d ≠ '\\' ∧ d ≠ '"' := by
          simp only [List.forall_mem_cons]
          exact ⟨by decide, by decide, hhigh, hrest, by simp⟩
        have htext : ['\\', 'u', '0', '0', hexDigit (c.toNat / 16), hexDigit (c.toNat % 16)] =
          ['\\', 'u'] ++ ['0', '0', hexDigit (c.toNat / 16), hexDigit (c.toNat % 16)] := rfl
        rw [htext, List.foldl_append, foldl_escaped h,
          foldl_quoted hdigits (u := u.append ['\\', 'u']) h, append_append]
      · exact foldl_quoted (by simp [hslash, hquote]) h

theorem foldl_escape {u : Unwrapping} (h : u.place = .quoted) (s : Text) :
    (s.flatMap escapeChar).foldl step u = u.append (s.flatMap escapeChar) := by
  induction s generalizing u with
  | nil => rfl
  | cons c s ih =>
    rw [List.flatMap_cons, List.foldl_append, foldl_escapeChar h,
      ih (u := u.append (escapeChar c)) h, append_append]

theorem Waits.foldl_string {u : Unwrapping} (h : u.Waits) (s : Text) :
    (renderString s).foldl Unwrapping.step u = u.settled.append (renderString s) := by
  have hopen : u.step '"' = { u.settled.append ['"'] with place := .quoted } := by
    rw [h.step (by decide)]
    show ({ u.settled.settle.write '"' with place := Place.quoted } : Unwrapping) = _
    rw [settle_of_closed u.closed_settled]
    rfl
  unfold renderString
  rw [List.cons_append, List.foldl_cons, hopen, List.foldl_append, foldl_escape rfl]
  simp [Unwrapping.step, write, append, h.place_settled]

theorem yields_string (s : Text) : Yields (renderString s) (renderString s) :=
  .of_append fun _ hu => hu.foldl_string s

end Unwrapping
end TwinGraph.Agtype
