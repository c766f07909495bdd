import TwinGraph.Proofs.Agtype.Unwrapping

/-! A text without annotations comes out as it is. Whether one starts somewhere depends on the
places of the characters before it, and not on what was written. -/
namespace TwinGraph.Agtype

namespace Place

def behind (c : Char) : Place := if c = '"' then quoted else if c = ':' then colon else plain

def next? : Place → Char → Option Place
  | plain, c => some (behind c)
  | quoted, c => some (if c = '\\' then escaped else if c = '"' then plain else quoted)
  | escaped, _ => some quoted
  | colon, c => if c = ':' then none else some (behind c)
  | tag _, _ => none

/-- A colon is written when it is known that no other one follows it. -/
def pending : Place → Text
  | colon => [':']
  | _ => []

end Place

namespace Unwrapping

variable {u : Unwrapping} {c : Char}

def written (u : Unwrapping) : Text :=
  (u.closed.getD [] ++ (u.current ++ u.outer.flatten)).reverse

/-- The text so far comes out as it is, and inside of a string no closed group is kept apart. -/
structure Keeps (u : Unwrapping) (p : Place) (s : Text) : Prop where
  place : u.place = p
  written : u.written ++ p.pending = s
  closed : p = .quoted ∨ p = .escaped → u.closed = none

theorem written_settle (u : Unwrapping) : u.settle.written = u.written := by
  unfold settle
  split
  · next group hclosed => simp [written, hclosed]
  · rfl

theorem written_write (h : u.closed = none) : (u.write c).written = u.written ++ [c] := by
  simp [written, write, h]

theorem written_settle_write (u : Unwrapping) (c : Char) :
    (u.settle.write c).written = u.written ++ [c] := by
  rw [written_write u.closed_settle, written_settle]

theorem written_openGroup (u : Unwrapping) (c : Char) :
    (u.openGroup c).written = u.written ++ [c] := by
  rw [← written_settle u]
  simp [written, openGroup, u.closed_settle]

theorem written_closeGroup (u : Unwrapping) (c : Char) :
    (u.closeGroup c).written = u.written ++ [c] := by
  rw [← written_settle_write]
  unfold closeGroup
  dsimp only
  split
  · rfl
  · next text outer houter =>
    have hclosed : (u.settle.write c).closed = none := u.closed_settle
    simp [written, houter, hclosed]

theorem place_closeGroup (u : Unwrapping) (c : Char) : (u.closeGroup c).place = u.place := by
  unfold closeGroup
  dsimp only
  split <;> exact u.place_settle

theorem keeps_of_written {p : Place} {s : Text} (hp : p.pending = []) (hplace : u.place = p)
    (h : u.written = s) (hclosed : p = .quoted ∨ p = .escaped → u.closed = none) : u.Keeps p s :=
  ⟨hplace, by rw [hp, List.append_nil]; exact h, hclosed⟩

theorem keeps_plain {s : Text} (hplace : u.place = .plain) (h : u.written = s) : u.Keeps .plain s :=
  keeps_of_written rfl hplace h (by rintro (h | h) <;> cases h)

theorem Keeps.written_eq {p : Place} {s : Text} (h : u.Keeps p s) (hp : p.pending = []) :
    u.written = s := by
  have hwritten := h.written
  rwa [hp, List.append_nil] at hwritten

theorem keeps_plainStep (hplace : u.place = .plain) (c : Char) :
    (u.plainStep c).Keeps (.behind c) (u.written ++ [c]) := by
  -- Brackets and blanks move text between the groups, but only a quote and a colon lead elsewhere.
  unfold plainStep Place.behind
  by_cases hquote : c = '"'
  · rw [if_pos hquote, if_pos hquote]
    exact keeps_of_written rfl rfl (u.written_settle_write c) fun _ => u.closed_settle
  rw [if_neg hquote, if_neg hquote]
  by_cases hopen : c = '{' ∨ c = '['
  · have hcolon : c ≠ ':' := by rcases hopen with rfl | rfl <;> decide
    rw [if_pos hopen, if_neg hcolon]
    exact keeps_plain (u := u.openGroup c) (u.place_settle.trans hplace) (u.written_openGroup c)
  rw [if_neg hopen]
  by_cases hclose : c = '}' ∨ c = ']'
  · have hcolon : c ≠ ':' := by rcases hclose with rfl | rfl <;> decide
    rw [if_pos hclose, if_neg hcolon]
    exact keeps_plain ((u.place_closeGroup c).trans hplace) (u.written_closeGroup c)
  rw [if_neg hclose]
  by_cases hcolon : c = ':'
  · rw [if_pos hcolon, if_pos hcolon, hcolon]
    exact ⟨rfl, rfl, by rintro (h | h) <;> cases h⟩
  rw [if_neg hcolon, if_neg hcolon]
  by_cases hblank : isBlank c = true
  · rw [if_pos hblank]
    split
    · next group hclosed =>
      exact keeps_plain (u := { u with closed := some (c :: group) }) hplace
        (by simp [written, hclosed])
    · next hclosed => exact keeps_plain (u := u.write c) hplace (written_write hclosed)
  · rw [if_neg hblank]
    exact keeps_plain (u := u.settle.write c) (u.place_settle.trans hplace)
      (u.written_settle_write c)

theorem keeps_write {p : Place} (hp : p = .plain ∨ p = .quoted ∨ p = .escaped)
    (hclosed : u.closed = none) (c : Char) :
    { u.write c with place := p }.Keeps p (u.written ++ [c]) :=
  keeps_of_written (by rcases hp with rfl | rfl | rfl <;> rfl) rfl (written_write hclosed)
    fun _ => hclosed

theorem keeps_step {p q : Place} {s : Text} (hu : u.Keeps p s) (h : p.next? c = some q) :
    (u.step c).Keeps q (s ++ [c]) := by
  unfold step
  rw [hu.place]
  cases p with
  | plain =>
    cases h
    rw [← hu.written_eq rfl]
    exact keeps_plainStep hu.place c
  | quoted =>
    cases h
    have hclosed := hu.closed (Or.inl rfl)
    rw [← hu.written_eq rfl]
    dsimp only
    split
    · exact keeps_write (Or.inr (Or.inr rfl)) hclosed c
    · split
      · exact keeps_write (Or.inl rfl) hclosed c
      · exact keeps_of_written rfl hu.place (written_write hclosed) fun _ => hclosed
  | escaped =>
    cases h
    rw [← hu.written_eq rfl]
    exact keeps_write (Or.inr (Or.inl rfl)) (hu.closed (Or.inr rfl)) c
  | colon =>
    rw [Place.next?] at h
    split at h
    · cases h
    · next hcolon =>
      cases h
      dsimp only
      rw [if_neg hcolon]
      have hleave : u.leave = { u.settle.write ':' with place := .plain } := by
        unfold leave
        rw [hu.place]
      have hwritten : u.leave.written = u.written ++ Place.colon.pending := by
        rw [hleave]
        exact u.written_settle_write ':'
      rw [← hu.written, ← hwritten]
      exact keeps_plainStep (by rw [hleave]) c
  | tag letters => cases h

theorem keeps_foldl {p q : Place} {s t : Text} (hu : u.Keeps p s)
    (h : t.foldlM Place.next? p = some q) : (t.foldl step u).Keeps q (s ++ t) := by
  induction t generalizing u p s with
  | nil =>
    cases h
    rwa [List.append_nil]
  | cons c t ih =>
    rw [List.foldlM_cons] at h
    obtain ⟨p', hp', h⟩ := Option.bind_eq_some_iff.mp h
    have hmore := ih (keeps_step hu hp') h
    rwa [List.append_assoc] at hmore

end Unwrapping

/-- Nothing is taken out of a text in which no annotation starts and every string ends. -/
theorem plainText_of_places {s : Text} (h : s.foldlM Place.next? .plain = some .plain) :
    plainText s = s := by
  have hkeeps : (s.foldl Unwrapping.step .start).Keeps .plain s :=
    Unwrapping.keeps_foldl (u := .start) (s := []) (Unwrapping.keeps_plain rfl rfl) h
  have hleave : (s.foldl Unwrapping.step .start).leave = s.foldl Unwrapping.step .start := by
    unfold Unwrapping.leave
    rw [hkeeps.place]
  have hsettle := (s.foldl Unwrapping.step .start).written_settle
  rw [hkeeps.written_eq rfl, Unwrapping.written, Unwrapping.closed_settle] at hsettle
  unfold plainText Unwrapping.finish
  rw [hleave]
  exact hsettle

end TwinGraph.Agtype
