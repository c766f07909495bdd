import TwinGraph.Proofs.Agtype.Unannotated

/-! What taking the annotations out does to any text. Annotations go, groups may be wrapped, and all
other characters are still there in the same order. -/
namespace TwinGraph.Agtype

inductive Group : Text → Prop where
  | group {opening closing inner blanks} : opening = '{' ∨ opening = '[' →
      closing = '}' ∨ closing = ']' → (∀ c ∈ blanks, isBlank c = true) →
      Group (opening :: inner ++ closing :: blanks)

theorem Group.concat {s : Text} {c : Char} (h : Group s) (hc : isBlank c = true) :
    Group (s ++ [c]) := by
  cases h with
  | group hopening hclosing hblanks =>
    rw [List.append_assoc, List.cons_append]
    exact .group hopening hclosing
      (List.forall_mem_append.mpr ⟨hblanks, List.forall_mem_singleton.mpr hc⟩)

def IsEntityWord (word : Text) : Prop := word = vertexWord ∨ word = edgeWord ∨ word = pathWord

inductive Quotes where
  | outside
  | inside
  | escaped

def Quotes.step : Quotes → Char → Quotes
  | outside, c => if c = '"' then inside else outside
  | inside, c => if c = '\\' then escaped else if c = '"' then outside else inside
  | escaped, _ => inside

theorem Quotes.step_outside {c : Char} (h : c ≠ '"') : outside.step c = outside := if_neg h

/-- The second text is the first without some annotations, and with a wrapping around groups that
have an entity annotation behind them. Strings are the same in both: only outside of them, which the
place in front of the texts and the one behind them tell, is anything left out or written. -/
inductive Thins : Quotes → Text → Text → Quotes → Prop where
  | nil (q) : Thins q [] [] q
  | kept {q q' s t} (c) : Thins (q.step c) s t q' → Thins q (c :: s) (c :: t) q'
  | dropped {q letters s t} : letters.all Char.isAlpha = true → Thins .outside s t q →
      Thins .outside (':' :: ':' :: letters ++ s) t q
  | wrapped {q group inner word s t} : Group group → IsEntityWord word →
      Thins .outside group inner .outside → Thins .outside s t q →
      Thins .outside (group ++ (':' :: ':' :: word ++ s))
        (Unwrapping.wrapping word ++ inner ++ '}' :: t) q

def Thinned (s t : Text) : Prop := ∃ q, Thins .outside s t q

namespace Thins

variable {q q' q'' : Quotes} {s t s' t' : Text}

theorem append (h : Thins q s t q') (h' : Thins q' s' t' q'') :
    Thins q (s ++ s') (t ++ t') q'' := by
  induction h with
  | nil => exact h'
  | kept c _ ih => exact .kept c (ih h')
  | dropped hletters _ ih =>
    rw [List.append_assoc]
    exact .dropped hletters (ih h')
  | wrapped hgroup hword hinner _ _ ih =>
    rw [List.append_assoc, List.append_assoc, List.append_assoc (_ ++ _)]
    exact .wrapped hgroup hword hinner (ih h')

theorem single (q : Quotes) (c : Char) : Thins q [c] [c] (q.step c) := .kept c (.nil _)

theorem concat (h : Thins q s t q') (c : Char) : Thins q (s ++ [c]) (t ++ [c]) (q'.step c) :=
  h.append (.single q' c)

end Thins

namespace Place

/-- What is read but not written yet: a colon, or an annotation that may go on. -/
def unwritten : Place → Text
  | colon => [':']
  | tag letters => ':' :: ':' :: letters.reverse
  | plain | quoted | escaped => []

def quotes : Place → Quotes
  | quoted => .inside
  | escaped => .escaped
  | plain | colon | tag _ => .outside

end Place

namespace Unwrapping

/-- The text up to here, with the text of the innermost group that is still open and of those around
it. A group begins with its bracket. -/
inductive Layers : Quotes → Text → Text → List Text → Prop where
  | outside {q s text} : Thins .outside s text.reverse q → Layers q s text []
  | group {q s opening inner text before outer} : Layers .outside s before outer →
      opening = '{' ∨ opening = '[' → Thins .outside (opening :: inner) text.reverse q →
      Layers q (s ++ opening :: inner) text (before :: outer)

/-- The group that was closed last, as long as only blanks follow it. -/
inductive Held : Option Text → Text → Prop where
  | none : Held none []
  | group {group s} : Group s → Thins .outside s group.reverse .outside → Held (some group) s

/-- All of the text is in the open groups and in the group closed last, which is outside of
strings. -/
structure Layered (u : Unwrapping) (q : Quotes) (s : Text) : Prop where
  text : ∃ front back, s = front ++ back ∧ Layers q front u.current u.outer ∧ Held u.closed back
  closed : q ≠ .outside → u.closed = none

variable {u : Unwrapping} {q q' : Quotes} {s t text : Text} {outer : List Text}

theorem Layers.append (h : Layers q s text outer) {raw : Text} (hraw : Thins q raw t q') :
    Layers q' (s ++ raw) (t.reverse ++ text) outer := by
  cases h with
  | outside hs =>
    refine .outside ?_
    rw [List.reverse_append, List.reverse_reverse]
    exact hs.append hraw
  | group hbefore hopening hinner =>
    rw [List.append_assoc, List.cons_append]
    refine .group hbefore hopening ?_
    rw [List.reverse_append, List.reverse_reverse]
    exact hinner.append hraw

theorem Layers.thins (h : Layers q s text outer) :
    Thins .outside s (text ++ outer.flatten).reverse q := by
  induction h with
  | outside hs => rwa [List.flatten_nil, List.append_nil]
  | group _ _ hinner ih =>
    rw [List.flatten_cons, List.reverse_append]
    exact ih.append hinner

theorem Layered.moved (h : u.Layered q s) (p : Place) : Layered { u with place := p } q s :=
  ⟨h.text, h.closed⟩

theorem layered_of_layers (h : Layers q s u.current u.outer) (hclosed : u.closed = none) :
    u.Layered q s := by
  refine ⟨⟨s, [], (List.append_nil s).symm, h, ?_⟩, fun _ => hclosed⟩
  rw [hclosed]
  exact .none

theorem Layered.layers (h : u.Layered q s) (hclosed : u.closed = none) :
    Layers q s u.current u.outer := by
  obtain ⟨⟨front, back, rfl, hfront, hback⟩, -⟩ := h
  rw [hclosed] at hback
  cases hback
  rwa [List.append_nil]

theorem Layered.outside (h : u.Layered q s) (hclosed : u.closed ≠ none) : q = .outside :=
  not_not.mp (mt h.closed hclosed)

theorem Layered.settle (h : u.Layered q s) : u.settle.Layered q s := by
  unfold Unwrapping.settle
  split
  · next group hclosed =>
    have hq := h.outside (by rw [hclosed]; exact Option.some_ne_none group)
    obtain ⟨⟨front, back, rfl, hfront, hback⟩, -⟩ := h
    rw [hclosed] at hback
    cases hback with
    | group _ hgroup =>
      rw [hq] at hfront ⊢
      have hall := hfront.append hgroup
      rw [List.reverse_reverse] at hall
      exact layered_of_layers (u := { u with current := group ++ u.current, closed := none }) hall rfl
  · exact h

theorem Layered.append (h : u.Layered q s) (hclosed : u.closed = none) {raw : Text}
    (hraw : Thins q raw t q') : (u.append t).Layered q' (s ++ raw) :=
  layered_of_layers (u := u.append t) ((h.layers hclosed).append hraw) hclosed

theorem Layered.write (h : u.Layered q s) (hclosed : u.closed = none) (c : Char) :
    (u.write c).Layered (q.step c) (s ++ [c]) :=
  h.append hclosed (.single q c)

theorem Layered.openGroup (h : u.Layered .outside s) {c : Char} (hc : c = '{' ∨ c = '[') :
    (u.openGroup c).Layered .outside (s ++ [c]) := by
  have hsingle := Thins.single .outside c
  rw [Quotes.step_outside (by rcases hc with rfl | rfl <;> decide)] at hsingle
  exact layered_of_layers (u := u.openGroup c) (.group (h.settle.layers u.closed_settle) hc hsingle)
    u.closed_settle

theorem Layered.closeGroup (h : u.Layered .outside s) {c : Char} (hc : c = '}' ∨ c = ']') :
    (u.closeGroup c).Layered .outside (s ++ [c]) := by
  have hquote : Quotes.outside.step c = .outside :=
    Quotes.step_outside (by rcases hc with rfl | rfl <;> decide)
  have hlayers := h.settle.layers u.closed_settle
  have hwritten := h.settle.write u.closed_settle c
  rw [hquote] at hwritten
  unfold Unwrapping.closeGroup
  dsimp only
  split
  · exact hwritten
  · next before outer houter =>
    have houter' : u.settle.outer = before :: outer := houter
    rw [houter'] at hlayers
    cases hlayers with
    | group hbefore hopening hinner =>
      refine ⟨⟨_, _, List.append_assoc _ _ _, hbefore, .group (.group hopening hc nofun) ?_⟩, nofun⟩
      have hclosed := hinner.concat c
      rwa [hquote, ← List.reverse_cons] at hclosed

theorem Layered.annotate (h : u.Layered .outside s) {name : Text}
    (hname : name.all Char.isAlpha = true) :
    (u.annotate name).Layered .outside (s ++ ':' :: ':' :: name) := by
  have hdropped : Thins .outside (':' :: ':' :: name) [] .outside := by
    have hletters := Thins.dropped hname (.nil .outside)
    rwa [List.append_nil] at hletters
  unfold Unwrapping.annotate
  split
  · next hclosed => exact h.append hclosed hdropped
  · next group hclosed =>
    split
    · next hword =>
      obtain ⟨⟨front, back, rfl, hfront, hback⟩, -⟩ := h
      rw [hclosed] at hback
      cases hback with
      | group hgroup hinner =>
        have hwrapped := hfront.append (Thins.wrapped hgroup hword hinner (.nil .outside))
        rw [List.append_nil] at hwrapped
        rw [List.append_assoc front]
        refine layered_of_layers (u := { u with
          current := '}' :: group ++ (wrapping name).reverse ++ u.current, closed := none }) ?_ rfl
        simpa using hwrapped
    · exact h.settle.append u.closed_settle hdropped

structure Follows (u : Unwrapping) (s : Text) : Prop where
  written : ∃ front, s = front ++ u.place.unwritten ∧ u.Layered u.place.quotes front
  letters : ∀ letters, u.place = .tag letters → letters.all Char.isAlpha = true

theorem follows_start : start.Follows [] :=
  ⟨⟨[], rfl, layered_of_layers (.outside (.nil .outside)) rfl⟩, nofun⟩

theorem follows_of_layered {p : Place} (hplace : u.place = p) (hp : p.unwritten = [])
    (h : u.Layered p.quotes s) : u.Follows s := by
  refine ⟨⟨s, ?_, ?_⟩, fun letters htag => ?_⟩
  · rw [hplace, hp, List.append_nil]
  · rwa [hplace]
  · rw [← hplace, htag] at hp
    cases hp

theorem Follows.layered (h : u.Follows s) {p : Place} (hplace : u.place = p)
    (hp : p.unwritten = []) : u.Layered p.quotes s := by
  obtain ⟨⟨front, rfl, hfront⟩, -⟩ := h
  rw [hplace] at hfront ⊢
  rwa [hp, List.append_nil]

theorem follows_at {p : Place} (hp : p.unwritten = []) (h : u.Layered p.quotes s) :
    Follows { u with place := p } s :=
  follows_of_layered rfl hp (h.moved p)

theorem follows_plain (hplace : u.place = .plain) (h : u.Layered .outside s) : u.Follows s :=
  follows_of_layered hplace rfl h

theorem follows_plainStep (hplace : u.place = .plain) (h : u.Layered .outside s) (c : Char) :
    (u.plainStep c).Follows (s ++ [c]) := by
  unfold plainStep
  split
  · next hquote =>
    rw [hquote]
    exact follows_at rfl (h.settle.write u.closed_settle '"')
  next hquote =>
  have hstep := Quotes.step_outside hquote
  split
  · next hopen => exact follows_plain (u.place_settle.trans hplace) (h.openGroup hopen)
  split
  · next hclose =>
    exact follows_plain ((u.place_closeGroup c).trans hplace) (h.closeGroup hclose)
  split
  · next hcolon =>
    rw [hcolon]
    exact ⟨⟨s, rfl, h.moved .colon⟩, nofun⟩
  split
  · next hblank =>
    split
    · next group hclosed =>
      obtain ⟨⟨front, back, rfl, hfront, hback⟩, -⟩ := h
      rw [hclosed] at hback
      cases hback with
      | group hgroup hinner =>
        refine follows_plain (u := { u with closed := some (c :: group) }) hplace
          ⟨⟨front, back ++ [c], List.append_assoc _ _ _, hfront, .group (hgroup.concat hblank) ?_⟩,
            nofun⟩
        have hmore := hinner.concat c
        rwa [hstep, ← List.reverse_cons] at hmore
    · next hclosed =>
      have hwritten := h.write hclosed c
      rw [hstep] at hwritten
      exact follows_plain (u := u.write c) hplace hwritten
  · have hwritten := h.settle.write u.closed_settle c
    rw [hstep] at hwritten
    exact follows_plain (u := u.settle.write c) (u.place_settle.trans hplace) hwritten

theorem Follows.leave (h : u.Follows s)
    (hplace : u.place = .colon ∨ ∃ letters, u.place = .tag letters) :
    u.leave.Layered .outside s ∧ u.leave.place = .plain := by
  obtain ⟨⟨front, rfl, hfront⟩, hletters⟩ := h
  unfold Unwrapping.leave
  rcases hplace with hplace | ⟨letters, hplace⟩
  · rw [hplace] at hfront ⊢
    exact ⟨(hfront.settle.write u.closed_settle ':').moved .plain, rfl⟩
  · rw [hplace] at hfront ⊢
    refine ⟨(hfront.annotate ?_).moved .plain, rfl⟩
    rw [List.all_reverse]
    exact hletters letters hplace

theorem Follows.step (h : u.Follows s) (c : Char) : (u.step c).Follows (s ++ [c]) := by
  unfold Unwrapping.step
  cases hplace : u.place with
  | plain => exact follows_plainStep hplace (h.layered hplace rfl) c
  | quoted =>
    have hlayered := h.layered hplace rfl
    have hwritten := hlayered.write (hlayered.closed nofun) c
    dsimp only
    split
    · next hescape =>
      rw [Place.quotes, Quotes.step, if_pos hescape] at hwritten
      exact follows_at rfl hwritten
    next hescape =>
    split
    · next hquote =>
      rw [Place.quotes, Quotes.step, if_neg hescape, if_pos hquote] at hwritten
      exact follows_at rfl hwritten
    · next hquote =>
      rw [Place.quotes, Quotes.step, if_neg hescape, if_neg hquote] at hwritten
      exact follows_of_layered (u := u.write c) hplace rfl hwritten
  | escaped =>
    have hlayered := h.layered hplace rfl
    exact follows_at (p := .quoted) rfl (hlayered.write (hlayered.closed nofun) c)
  | colon =>
    dsimp only
    split
    · next hcolon =>
      obtain ⟨front, rfl, hfront⟩ := h.written
      rw [hplace] at hfront ⊢
      rw [hcolon, Place.unwritten, List.append_assoc]
      exact ⟨⟨front, rfl, hfront.moved _⟩, by rintro _ ⟨⟩; rfl⟩
    · obtain ⟨hleft, hplain⟩ := h.leave (Or.inl hplace)
      exact follows_plainStep hplain hleft c
  | tag letters =>
    dsimp only
    split
    · next halpha =>
      obtain ⟨front, rfl, hfront⟩ := h.written
      have hletters := h.letters letters hplace
      rw [hplace] at hfront ⊢
      rw [Place.unwritten, List.append_assoc]
      refine ⟨⟨front, ?_, hfront.moved _⟩, ?_⟩
      · simp [Place.unwritten]
      · rintro _ ⟨⟩
        rw [List.all_cons, halpha, hletters]
        rfl
    · obtain ⟨hleft, hplain⟩ := h.leave (Or.inr ⟨letters, hplace⟩)
      exact follows_plainStep hplain hleft c

theorem Follows.foldl (h : u.Follows s) (t : Text) : (t.foldl Unwrapping.step u).Follows (s ++ t) := by
  induction t generalizing u s with
  | nil => rwa [List.append_nil]
  | cons c t ih =>
    have hmore := ih (h.step c)
    rwa [List.append_assoc] at hmore

theorem Follows.finish (h : u.Follows s) : Thinned s u.finish := by
  have hleft : ∃ q, u.leave.Layered q s := by
    cases hplace : u.place with
    | colon => exact ⟨_, (h.leave (Or.inl hplace)).1⟩
    | tag letters => exact ⟨_, (h.leave (Or.inr ⟨letters, hplace⟩)).1⟩
    | plain | quoted | escaped =>
      rw [Unwrapping.leave, hplace]
      exact ⟨_, h.layered hplace rfl⟩
  obtain ⟨q, hleft⟩ := hleft
  exact ⟨q, (hleft.settle.layers u.leave.closed_settle).thins⟩

end Unwrapping

/-- No character but those of annotations is lost, and none is moved. -/
theorem thinned_plainText (s : Text) : Thinned s (plainText s) :=
  (Unwrapping.follows_start.foldl s).finish

end TwinGraph.Agtype
