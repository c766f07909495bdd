import TwinGraph.Proofs.Query.Enclosing
import TwinGraph.Proofs.Query.Formulas
import TwinGraph.Proofs.Query.Searching

/-! Steps put into brackets. The text that comes out is cut into other tokens than the one that was
read, but only the words with such a step change, each into the items of its own path, and there is
nothing left in them to put into brackets. -/
namespace TwinGraph

open Query Scan Item

/-! ### Reading one after the other -/

namespace Token

def Reads : List Token → Text → Prop
  | [], _ => True
  | t :: ts, rest =>
    scan (t.text ++ ((ts.map text).flatten ++ rest)) = some (t, (ts.map text).flatten ++ rest) ∧
      Reads ts rest

theorem reads_ofText (s : Text) : Reads (ofText s) [] := by
  induction s using tokens_induction with
  | nil => trivial
  | cons s t rest hscan ih =>
    rw [ofText_of_scan hscan]
    refine ⟨?_, ih⟩
    rw [flatten_ofText, List.append_nil, ← (scanned_of_scan hscan).append.1]
    exact hscan

theorem Reads.ofText {ts : List Token} (h : Reads ts []) : ofText (ts.map text).flatten = ts := by
  induction ts with
  | nil => rfl
  | cons t ts ih =>
    obtain ⟨hscan, hrest⟩ := h
    rw [List.append_nil] at hscan
    rw [List.map_cons, List.flatten_cons, ofText_of_scan hscan, ih hrest]

theorem reads_append {ts us : List Token} {rest : Text} :
    Reads (ts ++ us) rest ↔ Reads ts ((us.map text).flatten ++ rest) ∧ Reads us rest := by
  induction ts with
  | nil => exact (iff_of_eq (true_and _)).symm
  | cons t ts ih =>
    rw [List.cons_append, Reads, Reads, ih, List.map_append, List.flatten_append, List.append_assoc,
      and_assoc]

theorem Writes.reads {ts : List Token} {s rest : Text} (h : Writes ts s)
    (hlast : ∀ t ∈ ts.getLast?, scan (t.text ++ rest) = some (t, rest)) : Reads ts rest := by
  obtain ⟨-, hlegal, hapart⟩ := h
  induction ts with
  | nil => trivial
  | cons t ts ih =>
    rw [List.forall_mem_cons] at hlegal
    cases ts with
    | nil => exact ⟨hlast t rfl, trivial⟩
    | cons u us =>
      rw [List.getLast?_cons_cons] at hlast
      refine ⟨hlegal.1 _ ?_, ih hlast hlegal.2 hapart.of_cons⟩
      obtain ⟨c, cs, hu⟩ := List.exists_cons_of_ne_nil (hlegal.2 u List.mem_cons_self).ne_nil
      have happart := (List.isChain_cons_cons.mp hapart).1
      rw [Apart, hu] at happart
      rw [List.map_cons, List.flatten_cons, hu]
      exact happart

end Token

/-! ### Points and brackets -/

theorem IsSegment.isPath {s : Text} (h : IsSegment s) : IsPath s := by
  obtain ⟨dollars, name, rfl, hdollars, hname⟩ := h
  refine IsPath.append (fun c hc => ?_) fun c hc =>
    isPathChar_of_isNameChar (isNameChar_of_mem hname c hc)
  rw [hdollars c hc]
  decide

/-- The second text is the first one, or it is the first one up to a point and has a bracket there.
-/
inductive Bracketing : Text → Text → Prop where
  | same (s : Text) : Bracketing s s
  | step (front s t : Text) (hfront : Closed front) :
    Bracketing (front ++ '.' :: s) (front ++ '[' :: t)

namespace Bracketing

variable {front rest rest' : Text}

theorem append (h : Bracketing rest rest') (hfront : Closed front) :
    Bracketing (front ++ rest) (front ++ rest') := by
  cases h with
  | same => exact .same _
  | step inner s t hinner =>
    rw [← List.append_assoc, ← List.append_assoc]
    exact .step (front ++ inner) s t (hfront.append hinner)

theorem scan {t : Token} (h : Bracketing rest rest') (ht : Closed t.text)
    (hscan : Token.scan (t.text ++ rest) = some (t, rest)) :
    Token.scan (t.text ++ rest') = some (t, rest') := by
  cases h with
  | same => exact hscan
  | step front s u hfront =>
    rw [← List.append_assoc] at hscan ⊢
    exact Token.scan_stop (by decide) u (ht.append hfront) (Token.scan_sever hscan)

theorem steps (h : Bracketing rest rest') {names : List Text} (hnames : ∀ s ∈ names, IsSegment s) :
    Bracketing ((names.map ('.' :: ·)).flatten ++ rest)
      ((names.map pathStep).flatten ++ rest') := by
  induction names with
  | nil => exact h
  | cons s names ih =>
    rw [List.forall_mem_cons] at hnames
    rw [List.map_cons, List.map_cons, List.flatten_cons, List.flatten_cons, List.append_assoc,
      List.append_assoc]
    rcases segment_cases s with ⟨name, rfl⟩ | ⟨-, htext⟩
    · exact .step [] _ _ (closed_of_quoteless (by simp))
    · rw [htext]
      exact (ih hnames.2).append (closed_of_quoteless
        (List.forall_mem_cons.mpr ⟨by decide, hnames.1.isPath.quoteless⟩))

end Bracketing

namespace Item

def pathItems (w : Text) : List Item :=
  match w.pieces (· == '.') with
  | [] => []
  | first :: names => Access.itemsFrom (some first) (names.map Step.ofSegment)

mutual

/-- What the item is read as when it comes out. The name of a call stays as it is. -/
def reread : Item → List Item
  | word w => pathItems w
  | literal s => [literal s]
  | space s => [space s]
  | symbol s => [symbol s]
  | call name args => [call name (rereadAll args)]
  | group items => [group (rereadAll items)]

def rereadAll : List Item → List Item
  | [] => []
  | item :: items => item.reread ++ rereadAll items

end

end Item

/-! ### Words -/

theorem pathItems_eq (w : Text) : ∃ first names, w.pieces (· == '.') = first :: names ∧
    pathItems w = Access.itemsFrom (some first) (names.map Step.ofSegment) := by
  obtain ⟨first, names, hpieces⟩ := List.exists_cons_of_ne_nil (Text.pieces_ne_nil (· == '.') w)
  exact ⟨first, names, hpieces, by rw [pathItems, hpieces]⟩

theorem exists_pathItems {w : Text} (hw : ∀ piece ∈ w.pieces (· == '.'), IsSegment piece) :
    ∃ (first : Text) (names : List Text), IsSegment first ∧ (∀ s ∈ names, IsSegment s) ∧
      w = first ++ (names.map ('.' :: ·)).flatten ∧
      pathItems w = Access.itemsFrom (some first) (names.map Step.ofSegment) := by
  obtain ⟨first, names, hpieces, hitems⟩ := pathItems_eq w
  have hwhole := intercalate_pieces '.' w
  rw [hpieces] at hw hwhole
  rw [List.forall_mem_cons] at hw
  refine ⟨first, names, hw.1, hw.2, ?_, hitems⟩
  rw [← hwhole]
  exact separated_eq ['.'] first names

theorem tokensAll_itemsFrom_ne_nil (w : Text) (steps : List Step) :
    tokensAll (Access.itemsFrom (some w) steps) ≠ [] := by
  obtain ⟨item, items, heq⟩ := List.exists_cons_of_ne_nil (Access.itemsFrom_ne_nil w steps)
  rw [heq, tokensAll]
  cases item <;> simp [tokens]

theorem last_itemsFrom (w : Option Text) (steps : List Step) :
    ∀ t ∈ (tokensAll (Access.itemsFrom w steps)).getLast?,
      t = .symbol [']'] ∨ ∃ p, t = .word p := by
  have hbracket : ∀ ts : List Token,
      (∀ t ∈ ts.getLast?, t = .symbol [']'] ∨ ∃ p, t = .word p) →
      ∀ t ∈ (Token.symbol [']'] :: ts).getLast?, t = .symbol [']'] ∨ ∃ p, t = .word p := by
    intro ts hlast
    cases ts with
    | nil => simp
    | cons u us => rwa [List.getLast?_cons_cons]
  fun_induction Access.itemsFrom w steps with
  | case1 => simp [tokensAll]
  | case2 w => simp [tokensAll, tokens]
  | case3 s steps ih =>
    obtain ⟨u, us, heq⟩ := List.exists_cons_of_ne_nil (tokensAll_itemsFrom_ne_nil s steps)
    rw [heq] at ih
    rwa [tokensAll, tokens, heq, List.singleton_append, List.getLast?_cons_cons]
  | case4 w s steps ih => exact ih
  | case5 key steps ih | case6 w key steps ih =>
    simp only [tokensAll, tokens, List.singleton_append, List.getLast?_cons_cons]
    exact hbracket _ ih

/-! ### Tokens that come out -/

namespace Token

theorem closed_of_mem_ofText {s : Text} (hs : Closed s) : ∀ t ∈ ofText s, Closed t.text := by
  induction s using tokens_induction with
  | nil => exact fun _ h => absurd h List.not_mem_nil
  | cons s t rest hscan ih =>
    rw [ofText_of_scan hscan, List.forall_mem_cons]
    exact ⟨(closed_text_of_scan hs hscan).1, ih (closed_of_scan hs hscan)⟩

/-- What is read as the first tokens in front of one text can be written so that it is read as the
second ones in front of the other. -/
def Keeps (ts us : List Token) : Prop :=
  ∀ rest rest', Bracketing rest rest' → (∀ t ∈ ts, Closed t.text) → Reads ts rest →
    Reads us rest' ∧ Bracketing ((ts.map text).flatten ++ rest) ((us.map text).flatten ++ rest')

theorem keeps_nil : Keeps [] [] := fun _ _ h _ _ => ⟨trivial, h⟩

theorem keeps_token (t : Token) : Keeps [t] [t] := by
  intro rest rest' h hclosed hreads
  have ht := hclosed t List.mem_cons_self
  have htext : ([t].map text).flatten = t.text := by simp
  rw [htext]
  exact ⟨⟨h.scan ht hreads.1, trivial⟩, h.append ht⟩

theorem Keeps.append {ts us ts' us' : List Token} (h : Keeps ts us) (h' : Keeps ts' us') :
    Keeps (ts ++ ts') (us ++ us') := by
  intro rest rest' hrest hclosed hreads
  rw [List.forall_mem_append] at hclosed
  rw [reads_append] at hreads
  obtain ⟨hback, hmore⟩ := h' _ _ hrest hclosed.2 hreads.2
  obtain ⟨hfront, hall⟩ := h _ _ hmore hclosed.1 hreads.1
  simp only [List.map_append, List.flatten_append, List.append_assoc]
  exact ⟨reads_append.mpr ⟨hfront, hback⟩, hall⟩

/-- A word comes out as the items of its path. The last of these ends where the word does. -/
theorem keeps_word (w : Text) : Keeps [word w] (tokensAll (pathItems w)) := by
  intro rest rest' h hclosed hreads
  have hread : scan (w ++ rest) = some (word w, rest) := hreads.1
  have hbehind := scanPath_of_scan (h.scan (t := word w) (hclosed _ List.mem_cons_self) hread)
  have hname := scanPath_ends hbehind
  have hend := scanPath_stops hbehind
  obtain ⟨first, names, hfirst, hnames, rfl, hitems⟩ :=
    exists_pathItems (finds_scanPath _ _ _ hbehind)
  have hwrites := writes_itemsFrom hnames (some first) (by
    rintro p ⟨⟩
    rw [pieces_plain hfirst.not_point, List.forall_mem_singleton]
    exact hfirst)
  rw [hitems]
  refine ⟨hwrites.reads fun t ht => ?_, ?_⟩
  · have hlegal := hwrites.legal t (List.mem_of_getLast? ht)
    rcases last_itemsFrom _ _ t ht with rfl | ⟨p, rfl⟩
    · exact hlegal rest' fun _ _ => rfl
    · have halone := hlegal [] (clear_nil _)
      exact scan_word_append (finds_scanPath _ _ _ (scanPath_of_scan halone)) hname hend
  · rw [hwrites.text]
    simp only [List.map_singleton, List.flatten_singleton, text, Option.getD_some,
      List.append_assoc]
    exact (h.steps hnames).append (closed_of_quoteless hfirst.isPath.quoteless)

end Token

namespace Item

mutual

theorem keeps_reread : (item : Item) → Token.Keeps item.tokens (tokensAll item.reread)
  | word w => Token.keeps_word w
  | literal s => Token.keeps_token (.literal s)
  | space s => Token.keeps_token (.space s)
  | symbol s => Token.keeps_token (.symbol s)
  | call name args => by
    have hfront := (Token.keeps_token (.word name)).append (Token.keeps_token .opening)
    have hcall := (hfront.append (keeps_rereadAll args)).append (Token.keeps_token .closing)
    simpa [reread, tokens, tokensAll] using hcall
  | group items => by
    have hfront := (Token.keeps_token .opening).append (keeps_rereadAll items)
    have hgroup := hfront.append (Token.keeps_token .closing)
    simpa [reread, tokens, tokensAll] using hgroup

theorem keeps_rereadAll : (items : List Item) →
    Token.Keeps (tokensAll items) (tokensAll (rereadAll items))
  | [] => Token.keeps_nil
  | item :: items => by
    rw [tokensAll, rereadAll, tokensAll_append]
    exact (keeps_reread item).append (keeps_rereadAll items)

end

/-! ### Items that come out -/

theorem renderAll_ofSegments (names : List Text) (w : Option Text) :
    renderAll (Access.itemsFrom w (names.map Step.ofSegment)) =
      w.getD [] ++ (names.map pathStep).flatten := by
  induction names generalizing w with
  | nil => cases w <;> simp [Access.itemsFrom, renderAll, render]
  | cons s names ih =>
    rw [List.map_cons, List.map_cons, List.flatten_cons]
    rcases segment_cases s with ⟨name, rfl⟩ | ⟨hstep, htext⟩
    · cases w <;>
        simp [Step.ofSegment, Access.itemsFrom, renderAll, render, ih, pathStep, Text.joined]
    · rw [hstep, htext]
      cases w <;> simp [Access.itemsFrom, renderAll, render, ih]

theorem bracketAll_ofSegments {names : List Text}
    (hnames : ∀ s ∈ names, ∀ c ∈ s, (c == '.') = false) (w : Option Text)
    (hw : ∀ p ∈ w, bracketPath p = p) :
    bracketAll (Access.itemsFrom w (names.map Step.ofSegment)) =
      Access.itemsFrom w (names.map Step.ofSegment) := by
  induction names generalizing w with
  | nil =>
    cases w with
    | none => rfl
    | some p =>
      have hp := hw p rfl
      simp [Access.itemsFrom, bracketAll, bracket, hp]
  | cons s names ih =>
    rw [List.forall_mem_cons] at hnames
    rw [List.map_cons]
    rcases segment_cases s with ⟨name, rfl⟩ | ⟨hstep, htext⟩
    · have hmore := ih hnames.2 none (by simp)
      cases w with
      | none => simp [Step.ofSegment, Access.itemsFrom, bracketAll, bracket, hmore]
      | some p =>
        have hp := hw p rfl
        simp [Step.ofSegment, Access.itemsFrom, bracketAll, bracket, hmore, hp]
    · rw [hstep]
      cases w with
      | none =>
        have hmore := ih hnames.2 (some s) (by
          rintro p ⟨⟩
          exact bracketPath_plain hnames.1)
        simp [Access.itemsFrom, bracketAll, bracket, hmore]
      | some p =>
        refine ih hnames.2 (some (p ++ '.' :: s)) ?_
        rintro q ⟨⟩
        rw [bracketPath_step p hnames.1, hw p rfl, htext]

theorem renderAll_pathItems (w : Text) : renderAll (pathItems w) = bracketPath w := by
  obtain ⟨first, names, hpieces, hitems⟩ := pathItems_eq w
  rw [hitems, bracketPath, hpieces]
  exact renderAll_ofSegments names (some first)

theorem bracketAll_pathItems (w : Text) : bracketAll (pathItems w) = pathItems w := by
  obtain ⟨first, names, hpieces, hitems⟩ := pathItems_eq w
  have hplain : ∀ s ∈ first :: names, ∀ c ∈ s, (c == '.') = false := fun s hs =>
    not_cut_of_mem_pieces (hpieces ▸ hs)
  rw [List.forall_mem_cons] at hplain
  rw [hitems]
  refine bracketAll_ofSegments hplain.2 (some first) ?_
  rintro p ⟨⟩
  exact bracketPath_plain hplain.1

mutual

theorem renderAll_reread : (item : Item) → renderAll item.reread = item.bracket.render
  | word w => by
    rw [bracket]
    exact renderAll_pathItems w
  | literal s | space s | symbol s => by rw [reread, bracket, renderAll_singleton]
  | call name args => by
    rw [reread, renderAll_singleton, bracket, render, render, renderAll_rereadAll args]
  | group items => by
    rw [reread, renderAll_singleton, bracket, render, render, renderAll_rereadAll items]

theorem renderAll_rereadAll : (items : List Item) →
    renderAll (rereadAll items) = renderAll (bracketAll items)
  | [] => rfl
  | item :: items => by
    rw [rereadAll, renderAll_append, renderAll_reread item, renderAll_rereadAll items, bracketAll,
      renderAll]

end

mutual

theorem bracketAll_reread : (item : Item) → bracketAll item.reread = item.reread
  | word w => bracketAll_pathItems w
  | literal s | space s | symbol s => by simp [reread, bracketAll, bracket]
  | call name args => by simp [reread, bracketAll, bracket, bracketAll_rereadAll args]
  | group items => by simp [reread, bracketAll, bracket, bracketAll_rereadAll items]

theorem bracketAll_rereadAll : (items : List Item) →
    bracketAll (rereadAll items) = rereadAll items
  | [] => rfl
  | item :: items => by
    have hfirst := bracketAll_reread item
    have hrest := bracketAll_rereadAll items
    rw [bracketAll_eq_map] at hfirst hrest ⊢
    rw [rereadAll, List.map_append, hfirst, hrest]

end

/-! ### Grouping what comes out -/

theorem leaf_of_mem_pathItems {w : Text} : ∀ x ∈ pathItems w, x.isLeaf = true := by
  obtain ⟨first, names, -, hitems⟩ := pathItems_eq w
  rw [hitems]
  exact fun x hx => (Access.inner_itemsFrom _ _ x hx).leaf

theorem reread_ne_nil (item : Item) : item.reread ≠ [] := by
  cases item with
  | word w =>
    obtain ⟨first, names, -, hitems⟩ := pathItems_eq w
    rw [reread, hitems]
    exact Access.itemsFrom_ne_nil _ _
  | literal | space | symbol | call | group => simp [reread]

/-- Neighbours stay apart: what comes out begins with a group or ends with a word only where the
item itself is one. -/
theorem beside_reread {item next last first : Item} (h : Beside item next)
    (hlast : last ∈ item.reread.getLast?) (hfirst : first ∈ next.reread.head?) :
    Beside last first := by
  cases next with
  | group inner =>
    cases item with
    | word w => exact h.elim
    | literal | space | symbol | call | group =>
      obtain rfl : _ = last := by simpa [reread] using hlast
      trivial
  | word w =>
    have hleaf := leaf_of_mem_pathItems first (List.mem_of_mem_head? hfirst)
    exact beside_of_not_group fun inner heq => by
      rw [heq] at hleaf
      cases hleaf
  | literal | space | symbol | call =>
    obtain rfl : _ = first := by simpa [reread] using hfirst
    exact beside_of_not_group (by simp)

theorem arranged_append {items items' : List Item} : Arranged (items ++ items') ↔
    Arranged items ∧ Arranged items' ∧
      ∀ last ∈ items.getLast?, ∀ first ∈ items'.head?, Beside last first := by
  rw [arranged_iff, arranged_iff, arranged_iff, List.forall_mem_append, List.isChain_append]
  tauto

theorem arranged_of_leaves {items : List Item} (h : ∀ x ∈ items, x.isLeaf = true) :
    Arranged items := by
  induction items with
  | nil => trivial
  | cons x items ih =>
    rw [List.forall_mem_cons] at h
    refine ⟨?_, fun next hnext => beside_of_not_group ?_, ih h.2⟩
    · cases x with
      | call | group => cases h.1
      | word | literal | space | symbol => trivial
    · rintro inner rfl
      cases h.2 _ (List.mem_of_mem_head? hnext)

mutual

theorem arranged_reread : (item : Item) → item.Nested → Arranged item.reread
  | word w, _ => arranged_of_leaves leaf_of_mem_pathItems
  | literal s, _ | space s, _ | symbol s, _ => ⟨trivial, by simp, trivial⟩
  | call name args, h => ⟨arranged_rereadAll args h, by simp, trivial⟩
  | group items, h => ⟨arranged_rereadAll items h, by simp, trivial⟩

theorem arranged_rereadAll : (items : List Item) → Arranged items → Arranged (rereadAll items)
  | [], _ => trivial
  | item :: items, h => by
    obtain ⟨hitem, hnext, hitems⟩ := h
    rw [rereadAll]
    refine arranged_append.mpr ⟨arranged_reread item hitem, arranged_rereadAll items hitems, ?_⟩
    intro last hlast first hfirst
    cases items with
    | nil => cases hfirst
    | cons next items =>
      rw [rereadAll, List.head?_append_of_ne_nil _ (reread_ne_nil next)] at hfirst
      exact beside_reread (hnext next rfl) hlast hfirst

end

theorem ofText?_bracketAll {s : Text} (hs : Closed s) {items : List Item}
    (h : ofText? s = some items) :
    ofText? (renderAll (bracketAll items)) = some (rereadAll items) := by
  obtain ⟨htokens, harranged⟩ := ofText?_eq_some_iff.mp h
  have hclosed : ∀ t ∈ tokensAll items, Closed t.text := htokens ▸ Token.closed_of_mem_ofText hs
  have hreads : Token.Reads (tokensAll items) [] := htokens ▸ Token.reads_ofText s
  have hagain := (keeps_rereadAll items [] [] (.same []) hclosed hreads).1.ofText
  rw [flatten_tokensAll, renderAll_rereadAll] at hagain
  exact ofText?_eq_some_iff.mpr ⟨hagain.symm, arranged_rereadAll items harranged⟩

end Item

/-! ### Reading the steps -/

structure PathStep where
  name : Text
  bracketed : Bool
  deriving DecidableEq, Repr

def inName (c : Char) : Bool := c != '.' && c != '['

def PathStep.scan : Scanner PathStep
  | '.' :: s => some (⟨s.takeWhile inName, false⟩, s.dropWhile inName)
  | '[' :: '\'' :: s => do
    let rest ← Text.after? ['\'', ']'] (s.dropWhile (· != '\''))
    some (⟨s.takeWhile (· != '\''), true⟩, rest)
  | _ => none

/-- The first name and the steps behind it, if they make up all of the text. -/
def readPath (s : Text) : Option (Text × List PathStep) :=
  match many PathStep.scan (s.dropWhile inName) with
  | (steps, []) => some (s.takeWhile inName, steps)
  | _ => none

theorem IsSegment.inName {s : Text} (h : IsSegment s) : ∀ c ∈ s, inName c = true := by
  intro c hc
  have hpoint := h.not_point c hc
  have hpath := h.isPath c hc
  have hbracket : c ≠ '[' := by
    rintro rfl
    cases hpath
  simpa [TwinGraph.inName, hbracket] using hpoint

theorem scan_pathStep {s : Text} (hs : IsSegment s) {rest : Text}
    (hrest : rest.head?.any inName = false) :
    PathStep.scan (pathStep s ++ rest) = some (⟨s, s.head? == some '$'⟩, rest) := by
  by_cases hdollar : s.head? = some '$'
  · obtain ⟨name, rfl⟩ := List.head?_eq_some_iff.mp hdollar
    have hquote : ∀ c ∈ '$' :: name, (c != '\'') = true := by
      intro c hc
      rw [bne_iff_ne]
      rintro rfl
      cases hs.isPath _ hc
    obtain ⟨htake, hdrop⟩ :
        ('$' :: name ++ '\'' :: ']' :: rest).takeWhile (· != '\'') = '$' :: name ∧
        ('$' :: name ++ '\'' :: ']' :: rest).dropWhile (· != '\'') = '\'' :: ']' :: rest :=
      span_append _ hquote rfl
    have htext : pathStep ('$' :: name) ++ rest =
        '[' :: '\'' :: ('$' :: name ++ '\'' :: ']' :: rest) := by
      simp [pathStep, Text.joined]
    have hclose : Text.after? ['\'', ']'] ('\'' :: ']' :: rest) = some rest :=
      Text.after?_eq_some_iff.mpr rfl
    rw [htext, PathStep.scan, htake, hdrop, hclose]
    rfl
  · obtain ⟨htake, hdrop⟩ := span_append rest hs.inName hrest
    rw [pathStep_plain hdollar, List.cons_append, PathStep.scan, htake, hdrop,
      beq_eq_false_iff_ne.mpr hdollar]

theorem pathStep_ne_nil (s : Text) : pathStep s ≠ [] := by
  rcases segment_cases s with ⟨name, rfl⟩ | ⟨-, htext⟩
  · exact List.cons_ne_nil _ _
  · rw [htext]
    exact List.cons_ne_nil _ _

theorem readPath_bracketPath {first : Text} {names : List Text} (hfirst : IsSegment first)
    (hnames : ∀ s ∈ names, IsSegment s) :
    readPath (bracketPath (Text.separated ['.'] (first :: names))) =
      some (first, names.map fun s => ⟨s, s.head? == some '$'⟩) := by
  have hpieces : Text.pieces (· == '.') (Text.separated ['.'] (first :: names)) =
      first :: names := by
    refine pieces_separated (List.cons_ne_nil _ _) (List.forall_mem_cons.mpr ⟨?_, fun s hs => ?_⟩)
    · exact fun h => absurd (hfirst.not_point _ h) (by decide)
    · exact fun h => absurd ((hnames s hs).not_point _ h) (by decide)
  have hmark : ∀ s rest : Text, (pathStep s ++ rest).head?.any inName = false := by
    intro s rest
    rcases segment_cases s with ⟨name, rfl⟩ | ⟨-, htext⟩
    · rfl
    · rw [htext]
      rfl
  have hsteps : many PathStep.scan (names.map pathStep).flatten =
      (names.map fun s => ⟨s, s.head? == some '$'⟩, []) := by
    let steps : List PathStep := names.map fun s => ⟨s, s.head? == some '$'⟩
    have hmany : many PathStep.scan ((steps.map fun step => pathStep step.name).flatten ++ []) =
        (steps, []) :=
      many_append _ (fun t => t.head?.any inName = false)
        (List.forall_mem_map.mpr fun s hs t ht => scan_pathStep (hnames s hs) ht)
        (List.forall_mem_map.mpr fun s _ => ⟨pathStep_ne_nil s, hmark s⟩) rfl rfl
    rwa [List.map_map, List.append_nil] at hmany
  have hhead : (names.map pathStep).flatten.head?.any inName = false := by
    cases names with
    | nil => rfl
    | cons s names => exact hmark s _
  obtain ⟨htake, hdrop⟩ := span_append _ hfirst.inName hhead
  rw [readPath, bracketPath, hpieces]
  dsimp only
  rw [htake, hdrop, hsteps]

namespace Query

/-- If the parentheses of an expression are balanced and its literals end, what comes out after its
steps are put into brackets is read again, and nothing changes any more. Read off step by step, a
path comes out as the segments that it has, behind the first one in brackets just where there is a
dollar sign. -/
theorem bracketing_is_stable :
    (∀ s, Terminated s → Balanced (outside s) → ∃ items items', ofText? s = some items ∧
      ofText? (renderAll (bracketAll items)) = some items' ∧ bracketAll items' = items' ∧
      renderAll (bracketAll items') = renderAll (bracketAll items)) ∧
    ∀ first names, IsSegment first → (∀ s ∈ names, IsSegment s) →
      readPath (bracketPath (Text.separated ['.'] (first :: names))) =
        some (first, names.map fun s => ⟨s, s.head? == some '$'⟩) := by
  refine ⟨fun s hs hbalanced => ?_, fun first names => readPath_bracketPath⟩
  obtain ⟨items, hitems⟩ := (exists_ofText?_iff s).mpr hbalanced
  have hagain := ofText?_bracketAll (terminated_iff.mp hs) hitems
  refine ⟨items, rereadAll items, hitems, hagain, bracketAll_rereadAll items, ?_⟩
  rw [bracketAll_rereadAll, renderAll_rereadAll]

/-- `NOT f(1e.$x.y.5, 'a.$b')` -/
def steppedItems : List Item :=
  [.word "NOT", .space " ", .call "f" [.literal "1", .word "e.$x.y", .symbol ".", .literal "5",
    .symbol ",", .space " ", .literal "'a.$b'"]]

def bracketedText : Text := "NOT f(1e['$x'].y.5, 'a.$b')"

/-- The number in front of the path and the point behind it stay apart from it, and the step in the
literal stays as it is. -/
theorem stepped_text_is_stable :
    Terminated (renderAll steppedItems) ∧ Balanced (outside (renderAll steppedItems)) ∧
    renderAll (bracketAll steppedItems) = bracketedText ∧
    (∃ items', ofText? bracketedText = some items' ∧ bracketAll items' = items' ∧
      renderAll (bracketAll items') = bracketedText) ∧
    (∀ s ∈ ["T", "$metadata", "a", "$$b"].map String.toList, IsSegment s) ∧
    bracketPath "T.$metadata.a.$$b" = "T['$metadata'].a['$$b']".toList ∧
    readPath "T['$metadata'].a['$$b']" =
      some ("T".toList, [⟨"$metadata", true⟩, ⟨"a", false⟩, ⟨"$$b", true⟩]) := by
  have hends : Terminated (renderAll steppedItems) :=
    terminated_iff.mpr (by decide +kernel)
  have hitems : ofText? (renderAll steppedItems) = some steppedItems := by
    have htokens : Token.ofText (renderAll steppedItems) = tokensAll steppedItems := by
      decide +kernel
    rw [ofText?, htokens]
    rfl
  have hbalanced := (exists_ofText?_iff _).mp ⟨_, hitems⟩
  have hout : renderAll (bracketAll steppedItems) = bracketedText := by decide +kernel
  have hsegment : ∀ dollars name : Text, dollars.all (· == '$') = true → isIdentifier name = true →
      IsSegment (dollars ++ name) := fun dollars name hdollars hname =>
    ⟨dollars, name, rfl, fun c hc => beq_iff_eq.mp (List.all_eq_true.mp hdollars c hc), hname⟩
  have hnames : ∀ s ∈ ["T", "$metadata", "a", "$$b"].map String.toList, IsSegment s := by
    simp only [List.map_cons, List.map_nil, List.forall_mem_cons]
    exact ⟨hsegment [] "T" (by decide) (by decide), hsegment "$" "metadata" (by decide) (by decide),
      hsegment [] "a" (by decide) (by decide), hsegment "$$" "b" (by decide) (by decide), by simp⟩
  obtain ⟨hstable, hread⟩ := bracketing_is_stable
  obtain ⟨items, items', hitems', hagain, hfixed, hrender⟩ := hstable _ hends hbalanced
  obtain rfl : steppedItems = items := Option.some.inj (hitems.symm.trans hitems')
  rw [hout] at hagain hrender
  have hpath : bracketPath "T.$metadata.a.$$b" = "T['$metadata'].a['$$b']".toList := by
    decide +kernel
  have hsteps := hread "T" ["$metadata", "a", "$$b"] (hnames _ (by simp))
    fun s hs => hnames s (List.mem_cons_of_mem _ hs)
  exact ⟨hends, hbalanced, hout, ⟨items', hagain, hfixed, hrender⟩, hnames, hpath, hpath ▸ hsteps⟩

end Query
end TwinGraph
