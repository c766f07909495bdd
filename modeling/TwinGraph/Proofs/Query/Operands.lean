import TwinGraph.Proofs.Query.Spelling

/-! Reading again what comes out for the operands and operators of a condition. Each item adds its
tokens in front of those behind it, and none of them runs into the next. -/
namespace TwinGraph

open Query Item

/-! ### Neighbours -/

/-- What is known of the tokens of a text. -/
structure Lexed (ts : List Token) : Prop where
  legal : ∀ t ∈ ts, (∀ x, t ≠ .symbol x) → t.Legal
  segments : ∀ w, .word w ∈ ts → ∀ piece ∈ w.pieces (· == '.'), IsSegment piece
  gaps : ∀ s, .space s ∈ ts → s ≠ [] ∧ ∀ c ∈ s, isGap c = true
  literals : ∀ s, .literal s ∈ ts → ∃ c cs, s = c :: cs ∧ (isQuote c = true ∨ c.isDigit = true)
  follows : ts.IsChain Token.Follows

theorem lexed_ofText (s : Text) : Lexed (Token.ofText s) :=
  ⟨fun _ h => Token.legal_of_mem_ofText h, fun _ h => Token.segments_of_mem_ofText h,
    fun _ h => Token.space_of_mem_ofText h, fun _ h => Token.literal_of_mem_ofText h,
    Token.isChain_ofText s⟩

theorem Lexed.isInfix {ts us : List Token} (h : Lexed ts) (hpart : us <:+: ts) : Lexed us :=
  ⟨fun t ht => h.legal t (hpart.subset ht), fun w hw => h.segments w (hpart.subset hw),
    fun s hs => h.gaps s (hpart.subset hs), fun s hs => h.literals s (hpart.subset hs),
    List.IsChain.infix h.follows hpart⟩

namespace Item

theorem trimSpaces_isInfix (items : List Item) : trimSpaces items <:+: items := by
  have hback := (List.dropWhile_suffix isSpace (l := (items.dropWhile isSpace).reverse))
  rw [← List.reverse_prefix, List.reverse_reverse] at hback
  exact hback.isInfix.trans (List.dropWhile_suffix isSpace).isInfix

theorem isInfix_of_mem_commaPieces (items : List Item) :
    ∃ first pieces, commaPieces items = first :: pieces ∧ first <+: items ∧
      ∀ piece ∈ pieces, piece <:+: items := by
  induction items with
  | nil => exact ⟨[], [], rfl, List.prefix_refl _, by simp⟩
  | cons x items ih =>
    obtain ⟨first, pieces, hpieces, hfirst, hall⟩ := ih
    have hmore : ∀ piece ∈ pieces, piece <:+: x :: items := fun piece hpiece =>
      (hall piece hpiece).trans (List.suffix_cons x items).isInfix
    cases hcomma : x.isComma with
    | true =>
      refine ⟨[], commaPieces items, commaPieces_comma hcomma items, List.nil_prefix, ?_⟩
      rw [hpieces, List.forall_mem_cons]
      exact ⟨hfirst.isInfix.trans (List.suffix_cons x items).isInfix, hmore⟩
    | false =>
      obtain ⟨first', pieces', hold, hnew⟩ :=
        commaPieces_append (List.forall_mem_singleton.mpr hcomma) items
      rw [hpieces] at hold
      cases hold
      exact ⟨x :: first, pieces, hnew, List.cons_prefix_cons.mpr ⟨rfl, hfirst⟩, hmore⟩

theorem isInfix_of_mem_arguments {args piece : List Item} (h : piece ∈ arguments args) :
    piece <:+: args := by
  unfold arguments at h
  split at h
  · cases h
  · obtain ⟨piece', hpiece', rfl⟩ := List.mem_map.mp h
    obtain ⟨first, pieces, hpieces, hfirst, hall⟩ := isInfix_of_mem_commaPieces args
    rw [hpieces] at hpiece'
    refine (trimSpaces_isInfix piece').trans ?_
    rcases List.mem_cons.mp hpiece' with rfl | hmem
    · exact hfirst.isInfix
    · exact hall piece' hmem

theorem tokensAll_isInfix {piece items : List Item} (h : piece <:+: items) :
    tokensAll piece <:+: tokensAll items := by
  obtain ⟨front, back, rfl⟩ := h
  rw [tokensAll_append, tokensAll_append]
  exact List.infix_append _ _ _

end Item

section Linked

variable {R : Item → Item → Prop}

theorem Linked.isInfix {items piece : List Item} (h : Linked R items) (hpart : piece <:+: items) :
    Linked R piece := by
  obtain ⟨hchain, hcalls, hgroups⟩ := h
  have hneighbours := List.IsChain.infix hchain hpart
  exact .intro hneighbours (fun name args hmem => hcalls name args (hpart.subset hmem))
    fun inner hmem => hgroups inner (hpart.subset hmem)

end Linked

/-- The items are tokens of a text, and no word of theirs will run into its neighbours. -/
structure Ready (var : Option Text) (items : List Item) : Prop where
  lexed : Lexed (tokensAll items)
  linked : Linked (Parted var) items

namespace Ready

variable {var : Option Text} {x : Item} {items : List Item}

theorem isInfix {piece : List Item} (h : Ready var items) (hpart : piece <:+: items) :
    Ready var piece :=
  ⟨h.lexed.isInfix (tokensAll_isInfix hpart), h.linked.isInfix hpart⟩

theorem tail (h : Ready var (x :: items)) : Ready var items :=
  h.isInfix (List.suffix_cons x items).isInfix

theorem inner {inner : List Item} (h : Ready var (group inner :: items)) : Ready var inner := by
  refine ⟨h.lexed.isInfix ⟨[.opening], .closing :: tokensAll items,
    by simp [tokensAll, tokens]⟩, ?_⟩
  obtain ⟨-, -, hgroups⟩ := h.linked
  exact hgroups inner List.mem_cons_self

theorem args {name : Text} {args : List Item} (h : Ready var (call name args :: items)) :
    Ready var args := by
  refine ⟨h.lexed.isInfix ⟨[.word name, .opening], .closing :: tokensAll items,
    by simp [tokensAll, tokens]⟩, ?_⟩
  obtain ⟨-, hcalls, -⟩ := h.linked
  exact hcalls name args List.mem_cons_self

theorem piece {name : Text} {args piece : List Item} (h : Ready var (call name args :: items))
    (hpiece : piece ∈ arguments args) : Ready var piece :=
  h.args.isInfix (isInfix_of_mem_arguments hpiece)

theorem grouped {w : Text} {args : List Item} (h : Ready var (call w args :: items)) :
    Ready var (group args :: items) := by
  refine ⟨h.lexed.isInfix ⟨[.word w], [], by simp [tokensAll, tokens]⟩, ?_⟩
  obtain ⟨hchain, hcalls, hgroups⟩ := h.linked
  refine .intro ?_ (fun name args hmem => hcalls name args (by simp_all)) fun inner hmem => ?_
  · rw [List.isChain_cons] at hchain ⊢
    refine ⟨fun y _ => Or.inl fun z hz => ?_, hchain.2⟩
    rw [inScope_group, Item.native] at hz
    cases hz
    rfl
  · rcases List.mem_cons.mp hmem with heq | hmem
    · cases heq
      exact hcalls w args List.mem_cons_self
    · exact hgroups inner (List.mem_cons_of_mem _ hmem)

end Ready

/-! ### Reading what comes out -/

def Operand.inScope (var : Option Text) : Operand → Operand
  | name w => name (wordText var w)
  | constant s => constant s

/-- Where a row is read that begins with an operand, or goes on behind one. -/
def Place.At : Bool → Place → Prop
  | false, place => place = .expecting
  | true, place => place.isWhole = true

structure Front (var : Option Text) (behind : Bool) (items : List Item) (c : Char) : Prop where
  gap : isGap c = true → ∃ s rest, items = space s :: rest
  point : c ≠ '.'
  mark : behind = false → c ≠ '=' ∧ c ≠ '>'
  number : behind = true → Token.continuesNumber c = false
  letter : isNameChar c = true → ∃ y rest, items = y :: rest ∧
    ((y.inScope var).render.head? = some c ∨
      (behind = false ∧ ∃ u ∈ y.tokens.head?, u.text.head?.any isNameChar = true))

structure Ends (var : Option Text) (items : List Item) (t : Token) : Prop where
  plain : ∀ c, isNameChar c = false → c ≠ '.' →
    (isGap c = true → ∀ x ∈ items.getLast?, x.isSpace = false) → t.endsBefore c = true
  letter : (∀ z ∈ (nativeAll (items.map (Item.inScope var))).getLast?, z.endsInWord = false) →
    ∀ c, isNameChar c = true → Token.continuesNumber c = false → t.endsBefore c = true

/-- The tokens are what comes out for the items, and they are read as the row with calls as
operators. -/
structure Emits (graph : Text) (var : Option Text) (behind : Bool) (items : List Item)
    (row : List Lexeme) (ts : List Token) : Prop where
  writes : Token.Writes ts (emit graph var items)
  empty : ts = [] → items = []
  front : ∀ c ∈ (emit graph var items).head?, Front var behind items c
  last : ∀ t ∈ ts.getLast?, Ends var items t
  runs : ∀ place, Place.At behind place → ∀ found outer, ∃ place', place'.isWhole = true ∧
    Reading.Runs ⟨place, found, outer⟩ ts
      ⟨place', (Lexeme.inlinedAll (Operand.inScope var) row).reverse ++ found, outer⟩

section Emitting

variable {graph : Text} {var : Option Text}

theorem emits_nil : Emits graph var true [] [] [] :=
  ⟨by rw [emit_nil]; exact Token.writes_nil, fun _ => rfl, by simp [emit_nil], by simp,
    fun place hplace found outer => ⟨place, hplace, .nil _⟩⟩

theorem native_ne_nil (x : Item) : x.native ≠ [] := by
  cases x with
  | word | literal | space | symbol | group =>
    rw [Item.native]
    exact List.cons_ne_nil _ _
  | call name args =>
    rw [Item.native, nativeCall]
    split
    · split <;> simp
    · split
      · split <;> simp
      · simp

theorem nativeAll_ne_nil {items : List Item} (h : items ≠ []) : nativeAll items ≠ [] := by
  obtain ⟨x, items, rfl⟩ := List.exists_cons_of_ne_nil h
  rw [nativeAll]
  exact List.append_ne_nil_of_left_ne_nil (native_ne_nil x) _

theorem nativeAll_singleton (x : Item) : nativeAll [x] = x.native := by
  rw [nativeAll, nativeAll, List.append_nil]

theorem Ends.cons {x : Item} {items : List Item} {t : Token} (h : Ends var items t)
    (hne : items ≠ []) : Ends var (x :: items) t := by
  have hnative : nativeAll (items.map (Item.inScope var)) ≠ [] :=
    nativeAll_ne_nil (List.map_eq_nil_iff.not.mpr hne)
  refine ⟨fun c hname hpoint hgap => h.plain c hname hpoint ?_, fun hword => h.letter ?_⟩
  · obtain ⟨y, items, rfl⟩ := List.exists_cons_of_ne_nil hne
    rwa [List.getLast?_cons_cons] at hgap
  · rwa [List.map_cons, nativeAll, List.getLast?_append_of_ne_nil _ hnative] at hword

theorem Emits.prepend {behind behind' : Bool} {items items' : List Item} {row : List Lexeme}
    {us ts : List Token} {s : Text} (h : Emits graph var behind' items row ts) (xs : List Lexeme)
    (htext : emit graph var items' = s ++ emit graph var items) (hwrites : Token.Writes us s)
    (hne : us ≠ []) (hjoin : ∀ t ∈ us.getLast?, t.Clear (emit graph var items))
    (hfront : ∀ c ∈ s.head?, Front var behind items' c)
    (hkeep : items ≠ [] → ∀ t, Ends var items t → Ends var items' t)
    (hlast : items = [] → ∀ t ∈ us.getLast?, Ends var items' t)
    (hruns : ∀ place, Place.At behind place → ∀ found outer, ∃ place', Place.At behind' place' ∧
      Reading.Runs ⟨place, found, outer⟩ us
        ⟨place', (Lexeme.inlinedAll (Operand.inScope var) xs).reverse ++ found, outer⟩) :
    Emits graph var behind items' (xs ++ row) (us ++ ts) := by
  refine ⟨?_, fun hnil => absurd (List.append_eq_nil_iff.mp hnil).1 hne, ?_, fun t ht => ?_,
    fun place hplace found outer => ?_⟩
  · rw [htext]
    exact hwrites.append h.writes hjoin
  · rw [htext, List.head?_append_of_ne_nil _ (hwrites.eq_nil_iff.not.mp hne)]
    exact hfront
  · by_cases hitems : items = []
    · have hts : ts = [] := h.writes.eq_nil_iff.mpr (by rw [hitems, emit_nil])
      rw [hts, List.append_nil] at ht
      exact hlast hitems t ht
    · have hts : ts ≠ [] := fun hts => hitems (h.empty hts)
      rw [List.getLast?_append_of_ne_nil _ hts] at ht
      exact hkeep hitems t (h.last t ht)
  · obtain ⟨place', hplace', hfirst⟩ := hruns place hplace found outer
    obtain ⟨place'', hplace'', hrest⟩ := h.runs place' hplace'
      ((Lexeme.inlinedAll (Operand.inScope var) xs).reverse ++ found) outer
    refine ⟨place'', hplace'', ?_⟩
    rw [Lexeme.inlinedAll_append, List.reverse_append, List.append_assoc]
    exact hfirst.append hrest

/-! ### One item -/

theorem ne_of_isNameChar {c d : Char} (h : isNameChar c = true) (hd : isNameChar d = false) :
    c ≠ d := by
  rintro rfl
  rw [h] at hd
  cases hd

theorem front_letter {behind : Bool} {x : Item} {items : List Item} {c : Char}
    (hc : isNameChar c = true) (hnumber : behind = true → Token.continuesNumber c = false)
    (hrender : (x.inScope var).render.head? = some c) : Front var behind (x :: items) c where
  gap hgap := by
    rw [not_isGap_of_isNameChar hc] at hgap
    cases hgap
  point := ne_of_isNameChar hc (by decide)
  mark _ := ⟨ne_of_isNameChar hc (by decide), ne_of_isNameChar hc (by decide)⟩
  number := hnumber
  letter _ := ⟨x, items, rfl, Or.inl hrender⟩

theorem front_other {behind : Bool} {items : List Item} {c : Char} (hc : isNameChar c = false)
    (hpoint : c ≠ '.') (hmark : behind = false → c ≠ '=' ∧ c ≠ '>')
    (hgap : isGap c = true → ∃ s rest, items = space s :: rest) : Front var behind items c where
  gap := hgap
  point := hpoint
  mark := hmark
  number _ := Token.not_continuesNumber hc hpoint
  letter h := by
    rw [hc] at h
    cases h

/-- What comes out for an operand does not run into what comes out behind it. -/
theorem Ends.clear {x : Item} {items : List Item} {t : Token} (h : Ends var [x] t)
    (hspace : x.isSpace = false) (hready : Ready var (x :: items))
    (hfront : ∀ c ∈ (emit graph var items).head?, Front var true items c) :
    t.Clear (emit graph var items) := by
  intro c hc
  have hf := hfront c hc
  cases hname : isNameChar c with
  | false =>
    refine h.plain c hname hf.point fun _ y hy => ?_
    cases hy
    exact hspace
  | true =>
    obtain ⟨y, rest, rfl, hy⟩ := hf.letter hname
    have hhead : (y.inScope var).render.head? = some c := by
      rcases hy with hy | ⟨⟨⟩, -⟩
      exact hy
    obtain ⟨hchain, -, -⟩ := hready.linked
    rcases (List.isChain_cons_cons.mp hchain).1 with hend | hplain
    · refine h.letter ?_ c hname (hf.number rfl)
      rwa [List.map_singleton, nativeAll_singleton]
    · rw [hhead, Option.any_some, hname] at hplain
      cases hplain

/-- One item that is read as an operand, from its first token to its last. -/
theorem Emits.one {x : Item} {l : Lexeme} {items : List Item} {row : List Lexeme}
    {us ts : List Token} (hready : Ready var (x :: items)) (hspace : x.isSpace = false)
    (hwrites : Token.Writes us (emit graph var [x])) (hne : us ≠ [])
    (hfront : ∀ c ∈ (emit graph var [x]).head?, Front var false (x :: items) c)
    (hends : ∀ t ∈ us.getLast?, Ends var [x] t)
    (hruns : ∀ found outer, ∃ place, place.isWhole = true ∧
      Reading.Runs ⟨.expecting, found, outer⟩ us
        ⟨place, (l.inlined (Operand.inScope var)).reverse ++ found, outer⟩)
    (h : Emits graph var true items row ts) :
    Emits graph var false (x :: items) (l :: row) (us ++ ts) := by
  refine h.prepend [l] (emit_cons _ _) hwrites hne
    (fun t ht => (hends t ht).clear hspace hready h.front) hfront (fun hne t ht => ht.cons hne)
    ?_ ?_
  · rintro rfl t ht
    exact hends t ht
  · rintro _ rfl found outer
    rw [Lexeme.inlinedAll_singleton]
    exact hruns found outer

theorem emits_operand {w : Text} {x : Operand} {items : List Item} {row : List Lexeme}
    {us ts : List Token} (hready : Ready var (word w :: items))
    (hwrites : Token.Writes us (emit graph var [word w])) (hne : us ≠ [])
    (hfirm : ∀ t ∈ us, t.Firm)
    (hfront : ∀ c ∈ (emit graph var [word w]).head?, Front var false (word w :: items) c)
    (hruns : ∀ found outer, ∃ place, place.isWhole = true ∧
      Reading.Runs ⟨.expecting, found, outer⟩ us
        ⟨place, .operand (x.inScope var) :: found, outer⟩)
    (h : Emits graph var true items row ts) :
    Emits graph var false (word w :: items) (.operand x :: row) (us ++ ts) := by
  refine .one hready rfl hwrites hne hfront (fun t ht => ?_) ?_ h
  · refine ⟨fun c hname hpoint _ => hfirm t (List.mem_of_getLast? ht) c hname hpoint,
      fun hword => ?_⟩
    obtain ⟨w', hw'⟩ := exists_word_inScope var w
    simp [hw', nativeAll, Item.native, endsInWord] at hword
  · rw [Lexeme.inlined]
    exact hruns

theorem emits_name (hvar : ∀ v ∈ var, isIdentifier v = true)
    (hfree : ∀ v ∈ var, operatorWords.any (Text.sameLetters v) = false) {w : Text}
    (hw : IsProperty w) {items : List Item} {row : List Lexeme} {ts : List Token}
    (hready : Ready var (word w :: items)) (h : Emits graph var true items row ts) :
    ∃ us, Emits graph var false (word w :: items) (.operand (.name w) :: row) us := by
  have hsegments := hready.lexed.segments w (by simp [tokensAll, tokens])
  obtain ⟨head, names, hhead, hnames, hplain, htext⟩ := exists_head hvar hfree hsegments hw
  obtain ⟨us, hwrites, hfirm, hruns⟩ := runs_name hhead hplain hnames
  obtain ⟨c, cs, rfl, hc⟩ := Token.exists_first_of_segment hhead
  have hemit : emit graph var [word w] = wordText var w := emit_name hw
  rw [← htext, ← hemit] at hwrites
  have hfirst : (wordText var w).head? = some c := by rw [htext]; rfl
  have hne : us ≠ [] := by
    rw [Ne, hwrites.eq_nil_iff, hemit]
    intro hnil
    rw [hnil] at hfirst
    cases hfirst
  refine ⟨_, emits_operand hready hwrites hne hfirm (fun d hd => ?_)
    (fun found outer => ⟨.path, rfl, ?_⟩) h⟩
  · rw [hemit, hfirst] at hd
    cases hd
    rcases hc with rfl | hc
    · exact front_other (by decide) (by decide) (fun _ => by decide) fun hgap => by cases hgap
    · refine front_letter (isNameChar_of_isNameStart hc) (by simp) ?_
      rw [inScope_word hw.not_operator, Item.render, hfirst]
  · rw [Operand.inScope, htext]
    exact hruns found outer

/-- A constant is no property. -/
theorem emits_constant {w : Text} (hw : constants.any (Text.sameLetters w) = true)
    {items : List Item} {row : List Lexeme} {ts : List Token}
    (hready : Ready var (word w :: items)) (h : Emits graph var true items row ts) :
    Emits graph var false (word w :: items) (.operand (.constant w) :: row) (.word w :: ts) := by
  obtain ⟨keyword, hmem, hsame⟩ := List.any_eq_true.mp hw
  have hall : ∀ keyword ∈ constants, keyword ∈ operatorWords ∧ IsKeyword keyword ∧
      Text.foldCase keyword ≠ Text.foldCase "NOT" := by decide
  obtain ⟨hoperator, hkeyword, hnot⟩ := hall keyword hmem
  have hword : operatorWords.any (Text.sameLetters w) = true :=
    List.any_eq_true.mpr ⟨keyword, hoperator, hsame⟩
  have hletters := isNameChar_of_sameLetters hkeyword hsame
  have hmem : Token.word w ∈ tokensAll (word w :: items) := by simp [tokensAll, tokens]
  have hwrites : Token.Writes [.word w] (emit graph var [word w]) := by
    rw [emit_keyword hword]
    exact (hready.lexed.legal _ hmem (by simp)).writes
  refine emits_operand hready hwrites (List.cons_ne_nil _ _) ?_ (fun c hc => ?_)
    (fun found outer => ⟨.behind, rfl, .single ?_⟩) h
  · exact List.forall_mem_singleton.mpr (Token.firm_word w)
  · rw [emit_keyword hword] at hc
    refine front_letter (hletters c (List.mem_of_mem_head? hc)) (by simp) ?_
    rw [inScope_keyword var hword]
    exact hc
  · rw [Text.sameLetters, beq_iff_eq] at hsame
    rw [Reading.step, Reading.word, Reading.operand, if_neg, if_pos hw]
    · rfl
    · rw [Text.sameLetters, beq_iff_eq, hsame]
      exact hnot

theorem emits_literal {s : Text} {items : List Item} {row : List Lexeme} {ts : List Token}
    (hready : Ready var (literal s :: items)) (h : Emits graph var true items row ts) :
    Emits graph var false (literal s :: items) (.operand (.constant s) :: row)
      (.literal s :: ts) := by
  have hmem : Token.literal s ∈ tokensAll (literal s :: items) := by simp [tokensAll, tokens]
  have hwrites : Token.Writes [.literal s] (emit graph var [literal s]) := by
    rw [emit_literal]
    exact (hready.lexed.legal _ hmem (by simp)).writes
  refine .one hready rfl hwrites (List.cons_ne_nil _ _) (fun c hc => ?_) ?_ ?_ h
  · rw [emit_literal] at hc
    obtain ⟨d, cs, rfl, hd⟩ := hready.lexed.literals s hmem
    cases hc
    rcases hd with hquote | hdigit
    · rw [isQuote, Bool.or_eq_true, beq_iff_eq, beq_iff_eq] at hquote
      rcases hquote with rfl | rfl <;>
        exact front_other (by decide) (by decide) (fun _ => by decide) fun hgap => by cases hgap
    · have hname : isNameChar c = true := by simp [isNameChar, Char.isAlphanum, hdigit]
      exact front_letter hname (by simp) (by rw [inScope_literal]; rfl)
  · rintro t ⟨⟩
    have hends : ∀ c, Token.continuesNumber c = false → (Token.literal s).endsBefore c = true :=
      fun c hc => by simp [Token.endsBefore, hc]
    exact ⟨fun c hname hpoint _ => hends c (Token.not_continuesNumber hname hpoint),
      fun _ c _ hnumber => hends c hnumber⟩
  · rw [Lexeme.inlined]
    exact fun found outer => ⟨.behind, rfl, .single rfl⟩

theorem emits_space {behind : Bool} {s : Text} {items : List Item} {row : List Lexeme}
    {ts : List Token} (hready : Ready var (space s :: items))
    (h : Emits graph var behind items row ts) :
    Emits graph var behind (space s :: items) row (.space s :: ts) := by
  have hmem : Token.space s ∈ tokensAll (space s :: items) := by simp [tokensAll, tokens]
  obtain ⟨hne, hgaps⟩ := hready.lexed.gaps s hmem
  have hends : ∀ c, isGap c = false → (Token.space s).endsBefore c = true := fun c hc => by
    rw [Token.endsBefore, hc]
    rfl
  refine h.prepend [] (emit_cons _ _) ?_ (List.cons_ne_nil (.space s) []) ?_ (fun c hc => ?_)
    (fun hne t ht => ht.cons hne) ?_ ?_
  · rw [emit_space]
    exact (hready.lexed.legal _ hmem (by simp)).writes
  · rintro t ⟨⟩ c hc
    refine hends c (Bool.eq_false_iff.mpr fun hgap => ?_)
    -- Only a space could begin with a gap, and it would belong to this one.
    obtain ⟨s', rest, rfl⟩ := (h.front c hc).gap hgap
    have hmem' : Token.space s' ∈ tokensAll (space s :: space s' :: rest) := by
      simp [tokensAll, tokens]
    obtain ⟨hne', -⟩ := hready.lexed.gaps s' hmem'
    have hfollows := hready.lexed.follows
    rw [tokensAll, tokens, List.singleton_append, tokensAll, tokens, List.singleton_append,
      List.isChain_cons_cons] at hfollows
    rw [emit_cons, emit_space, List.head?_append_of_ne_nil _ hne'] at hc
    have hplain := hfollows.1
    rw [Token.Follows, Token.text, hc, Option.any_some, hgap] at hplain
    cases hplain
  · rw [emit_space] at hc
    have hgap := hgaps c (List.mem_of_mem_head? hc)
    refine front_other (not_isNameChar_of_isGap hgap) ?_ (fun _ => ⟨?_, ?_⟩) fun _ =>
      ⟨s, items, rfl⟩
    all_goals
      rintro rfl
      cases hgap
  · rintro rfl t ⟨⟩
    refine ⟨fun c _ _ hgap => hends c (Bool.eq_false_iff.mpr fun hc => ?_),
      fun _ c hname _ => hends c (not_isGap_of_isNameChar hname)⟩
    cases hgap hc (space s) rfl
  · intro place hplace found outer
    exact ⟨place, hplace, .single rfl⟩

theorem emits_group {inner items : List Item} {row row' : List Lexeme} {us ts : List Token}
    (hready : Ready var (group inner :: items)) (hinner : Emits graph var false inner row us)
    (h : Emits graph var true items row' ts) :
    Emits graph var false (group inner :: items) (.group row :: row')
      (.opening :: (us ++ [.closing]) ++ ts) := by
  refine .one hready rfl ?_ (List.cons_ne_nil _ _) (fun c hc => ?_) (fun t ht => ?_)
    (fun found outer => ⟨.behind, rfl, ?_⟩) h
  · rw [emit_group]
    have hclosing : Token.Writes (us ++ [.closing]) (emit graph var inner ++ [')']) := by
      refine hinner.writes.append Token.legal_closing.writes fun t ht c hc => ?_
      cases hc
      exact (hinner.last t ht).plain ')' (by decide) (by decide) fun hgap => by cases hgap
    exact hclosing.cons Token.legal_opening fun _ _ => rfl
  · rw [emit_group] at hc
    cases hc
    exact front_other (by decide) (by decide) (fun _ => by decide) fun hgap => by cases hgap
  · rw [← List.cons_append, List.getLast?_concat] at ht
    cases ht
    exact ⟨fun _ _ _ _ => rfl, fun _ _ _ _ => rfl⟩
  · obtain ⟨place', hplace', hrun⟩ := hinner.runs .expecting rfl [] (found :: outer)
    refine .cons rfl (hrun.append (.single ?_))
    simp [Reading.step, Reading.closing, hplace', Lexeme.inlined]

/-! ### Operators in words -/

theorem continuesNumber_toLower {c : Char} (h : Token.continuesNumber c = true) :
    Token.continuesNumber c.toLower = true := by
  by_cases hupper : c.isUpper = true
  · have hletter : c.isAlpha = (c.isUpper || c.isLower) := rfl
    have hdigit : c.isDigit = false := Token.not_isDigit_of_isNameStart (by
      rw [isNameStart, hletter, hupper]
      rfl)
    simp only [Token.continuesNumber, hdigit, Bool.false_or, Bool.or_eq_true, beq_iff_eq] at h
    rcases h with (rfl | rfl) | rfl <;> decide
  · have hlower : c.toLower = c := dif_neg fun hletter => hupper (decide_eq_true hletter)
    rwa [hlower]

theorem not_continuesNumber_of_sameLetters {w keyword : Text} (h : w.sameLetters keyword = true)
    (hkeyword : ∀ k ∈ keyword.foldCase.head?, Token.continuesNumber k = false) :
    ∀ c ∈ w.head?, Token.continuesNumber c = false := by
  intro c hc
  rw [Text.sameLetters, beq_iff_eq] at h
  refine Bool.eq_false_iff.mpr fun hcontinues => ?_
  have hfirst := hkeyword c.toLower (by rw [← h, Text.foldCase, List.head?_map, hc]; rfl)
  rw [continuesNumber_toLower hcontinues] at hfirst
  cases hfirst

structure Connects (var : Option Text) (behind : Bool) (w : Text) (x : Lexeme) : Prop where
  connector : IsConnector w
  letters : ∀ c ∈ w, isNameChar c = true
  number : behind = true → ∀ c ∈ w.head?, Token.continuesNumber c = false
  inlined : x.inlined (Operand.inScope var) = [x]
  step : ∀ place, Place.At behind place → ∀ found outer,
    Reading.step ⟨place, found, outer⟩ (.word w) = some ⟨.expecting, x :: found, outer⟩

theorem connects_not {w : Text} (h : w.sameLetters "NOT" = true) :
    Connects var false w (.unary .not) where
  connector := isConnector_not h
  letters := isNameChar_of_sameLetters (by decide) h
  number := by simp
  inlined := by rw [Lexeme.inlined]
  step := by
    rintro _ rfl found outer
    rw [Reading.step, Reading.word, Reading.operand, if_pos h]
    rfl

theorem connects_connective {w : Text} {op : Binary} (h : connective? w = some op) :
    Connects var true w (.binary op) := by
  have hstep : ∀ place, place.isWhole = true → ∀ found outer,
      Reading.step ⟨place, found, outer⟩ (.word w) =
        some ⟨.expecting, .binary op :: found, outer⟩ := by
    intro place hplace found outer
    have hoperator : ∀ r : Reading, r.operator w = some (r.push .expecting (.binary op)) :=
      fun r => by rw [Reading.operator, h]
    cases place with
    | path | behind => exact hoperator _
    | _ => cases hplace
  obtain ⟨keyword, hsame, hkeyword, hfirst⟩ : ∃ keyword, w.sameLetters keyword = true ∧
      IsKeyword keyword ∧ ∀ k ∈ keyword.foldCase.head?, Token.continuesNumber k = false := by
    unfold connective? at h
    split at h
    · next hand => exact ⟨"AND", hand, by decide, by decide⟩
    · split at h
      · next hor => exact ⟨"OR", hor, by decide, by decide⟩
      · cases h
  exact ⟨isConnector_of_connective h, isNameChar_of_sameLetters hkeyword hsame,
    fun _ => not_continuesNumber_of_sameLetters hsame hfirst, by rw [Lexeme.inlined], hstep⟩

theorem clear_word {w : Text} {items : List Item} (hready : Ready var (word w :: items))
    (hfront : ∀ c ∈ (emit graph var items).head?, Front var false items c) :
    (Token.word w).Clear (emit graph var items) := by
  intro c hc
  have hf := hfront c hc
  cases hname : isNameChar c with
  | false => exact Token.firm_word w c hname hf.point
  | true =>
    obtain ⟨y, rest, rfl, hy⟩ := hf.letter hname
    rcases hy with hy | ⟨-, u, hu, hletter⟩
    · obtain ⟨hchain, -, -⟩ := hready.linked
      rcases (List.isChain_cons_cons.mp hchain).1 with hend | hhead
      · obtain ⟨w', hw'⟩ := exists_word_inScope var w
        rw [hw', Item.native] at hend
        cases hend (word w') rfl
      · rw [hy, Option.any_some, hname] at hhead
        cases hhead
    -- The name of a call that comes out behind its first argument was already cut off.
    · have hfollows := hready.lexed.follows
      rw [tokensAll, tokens, List.singleton_append, List.isChain_cons] at hfollows
      have hmem : u ∈ (tokensAll (y :: rest)).head? := by
        rw [tokensAll, List.head?_append, hu]
        rfl
      have hplain := hfollows.1 u hmem
      rw [Token.Follows, hletter] at hplain
      cases hplain

theorem emits_connector {behind : Bool} {w : Text} {x : Lexeme} {items : List Item}
    {row : List Lexeme} {ts : List Token} (hw : Connects var behind w x)
    (hready : Ready var (word w :: items)) (hne : items ≠ [])
    (h : Emits graph var false items row ts) :
    Emits graph var behind (word w :: items) (x :: row) (.word w :: ts) := by
  have hmem : Token.word w ∈ tokensAll (word w :: items) := by simp [tokensAll, tokens]
  refine h.prepend [x] (emit_cons _ _) ?_ (List.cons_ne_nil (.word w) []) ?_ (fun c hc => ?_)
    (fun hne t ht => ht.cons hne) (fun hnil => absurd hnil hne) fun place hplace found outer => ?_
  · rw [emit_keyword hw.connector.operator]
    exact (hready.lexed.legal _ hmem (by simp)).writes
  · rintro t ⟨⟩
    exact clear_word hready h.front
  · rw [emit_keyword hw.connector.operator] at hc
    refine front_letter (hw.letters c (List.mem_of_mem_head? hc)) (fun hb => hw.number hb c hc) ?_
    rw [inScope_keyword var hw.connector.operator]
    exact hc
  · refine ⟨.expecting, rfl, .single ?_⟩
    rw [Lexeme.inlinedAll_singleton, hw.inlined]
    exact hw.step place hplace found outer

theorem Ends.ofGroup {w : Text} {args items : List Item} {t : Token}
    (h : Ends var (group args :: items) t) : Ends var (call w args :: items) t := by
  cases items with
  | nil =>
    refine ⟨fun c hname hpoint _ => h.plain c hname hpoint fun _ x hx => ?_, fun _ => h.letter ?_⟩
    · cases hx
      rfl
    · simp [inScope_group, nativeAll, Item.native, endsInWord]
  | cons y items =>
    have hnative : nativeAll ((y :: items).map (Item.inScope var)) ≠ [] :=
      nativeAll_ne_nil (List.cons_ne_nil _ _)
    refine ⟨fun c hname hpoint hgap => h.plain c hname hpoint ?_, fun hword => h.letter ?_⟩
    · rwa [List.getLast?_cons_cons] at hgap ⊢
    · rw [List.map_cons, nativeAll, List.getLast?_append_of_ne_nil _ hnative] at hword ⊢
      exact hword

/-- The parenthesis behind the operator is no list of arguments. -/
theorem emits_connectorCall {behind : Bool} {w : Text} {x : Lexeme} {args items : List Item}
    {row : List Lexeme} {ts : List Token} (hw : Connects var behind w x)
    (hready : Ready var (call w args :: items))
    (h : Emits graph var false (group args :: items) row ts) :
    Emits graph var behind (call w args :: items) (x :: row) (.word w :: ts) := by
  have hmem : Token.word w ∈ tokensAll (call w args :: items) := by simp [tokensAll, tokens]
  refine h.prepend [x] ?_ (hready.lexed.legal _ hmem (by simp)).writes
    (List.cons_ne_nil (Token.word w) []) ?_ (fun c hc => ?_) (fun _ t ht => ht.ofGroup)
    (fun hnil => by cases hnil) fun place hplace found outer => ?_
  · rw [emit_cons, emit_connector hw.connector, List.append_assoc, ← emit_cons]
    rfl
  · rintro t ⟨⟩ c hc
    rw [emit_cons, emit_group] at hc
    cases hc
    exact Token.firm_word w '(' (by decide) (by decide)
  · refine front_letter (hw.letters c (List.mem_of_mem_head? hc)) (fun hb => hw.number hb c hc) ?_
    have hfirst : w.head? = some c := hc
    rw [inScope_call, Item.render, List.append_assoc, List.head?_append, hfirst]
    rfl
  · refine ⟨.expecting, rfl, .single ?_⟩
    rw [Lexeme.inlinedAll_singleton, hw.inlined]
    exact hw.step place hplace found outer

/-! ### Operators in symbols -/

theorem legal_compare {s : Text} (hs : s ∈ comparisons) : (Token.symbol s).Legal := by
  intro rest hclear
  have hscan : Token.scan (s ++ rest) = Token.scanOperator (s ++ rest) := by
    have hall : ∀ s ∈ comparisons, s ≠ [] ∧ ∀ c ∈ s.head?, isQuote c = false ∧
        isNameChar c = false ∧ (c == '$') = false ∧ isGap c = false := by decide
    obtain ⟨hne, hfirst⟩ := hall s hs
    obtain ⟨c, cs, rfl⟩ := List.exists_cons_of_ne_nil hne
    obtain ⟨hquote, hname, hdollar, hgap⟩ := hfirst c rfl
    exact Token.scan_operator hquote hname hdollar hgap _
  have hangle : ∀ c, c = '<' ∨ c = '>' → s = [c] →
      Token.scanOperator (s ++ rest) = some (.symbol s, rest) := by
    rintro c hc rfl
    cases rest with
    | nil => rcases hc with rfl | rfl <;> rfl
    | cons d rest =>
      have hd := hclear d rfl
      rcases hc with rfl | rfl <;>
        simp only [Token.endsBefore, List.singleton_append] at hd ⊢ <;>
        unfold Token.scanOperator <;> split <;> grind
  rw [Token.text, hscan]
  simp only [comparisons, List.mem_cons, List.not_mem_nil, or_false] at hs
  rcases hs with rfl | rfl | rfl | rfl | rfl | rfl | rfl
  · rfl
  · rfl
  · rfl
  · exact hangle '<' (Or.inl rfl) rfl
  · rfl
  · exact hangle '>' (Or.inr rfl) rfl
  · rfl

theorem legal_sum {s : Text} (hs : s ∈ sums) : (Token.symbol s).Legal := by
  simp only [sums, List.mem_cons, List.not_mem_nil, or_false] at hs
  rcases hs with rfl | rfl <;>
    exact Token.legal_mark (by decide) (by decide) (by decide) (by decide) (by decide)

structure Marks (var : Option Text) (behind : Bool) (s : Text) (x : Lexeme) : Prop where
  legal : (Token.symbol s).Legal
  first : ∀ c ∈ s.head?, isNameChar c = false ∧ c ≠ '.' ∧ isGap c = false ∧
    (behind = false → c ≠ '=' ∧ c ≠ '>')
  inlined : x.inlined (Operand.inScope var) = [x]
  step : ∀ place, Place.At behind place → ∀ found outer,
    Reading.step ⟨place, found, outer⟩ (.symbol s) = some ⟨.expecting, x :: found, outer⟩

theorem marks_binary {s : Text} {op : Binary} (hlegal : (Token.symbol s).Legal)
    (hfirst : ∀ c ∈ s.head?, isNameChar c = false ∧ c ≠ '.' ∧ isGap c = false)
    (hpath : s ≠ ['['] ∧ s ≠ ['.'])
    (hmark : ∀ r : Reading, r.mark s = some (r.push .expecting (.binary op))) :
    Marks var true s (.binary op) where
  legal := hlegal
  first := by simpa using hfirst
  inlined := by rw [Lexeme.inlined]
  step place hplace found outer := by
    cases place with
    | path =>
      rw [Reading.step, Reading.symbol, if_neg hpath.1, if_neg hpath.2]
      exact hmark _
    | behind => exact hmark _
    | _ => cases hplace

theorem marks_compare {s : Text} (hs : s ∈ comparisons) :
    Marks var true s (.binary (.compare s)) := by
  have hall : ∀ s ∈ comparisons, (∀ c ∈ s.head?, isNameChar c = false ∧ c ≠ '.' ∧
      isGap c = false) ∧ s ≠ ['['] ∧ s ≠ ['.'] := by decide
  exact marks_binary (legal_compare hs) (hall s hs).1 (hall s hs).2 fun r => by
    rw [Reading.mark, if_pos hs]

theorem marks_add {s : Text} (hs : s ∈ sums) : Marks var true s (.binary (.add s)) := by
  have hall : ∀ s ∈ sums, (∀ c ∈ s.head?, isNameChar c = false ∧ c ≠ '.' ∧
      isGap c = false) ∧ (s ≠ ['['] ∧ s ≠ ['.']) ∧ s ∉ comparisons := by decide
  obtain ⟨hfirst, hpath, hcompare⟩ := hall s hs
  exact marks_binary (legal_sum hs) hfirst hpath fun r => by
    rw [Reading.mark, if_neg hcompare, if_pos hs]

theorem marks_sign {s : Text} (hs : s ∈ sums) : Marks var false s (.unary (.sign s)) where
  legal := legal_sum hs
  first := by
    have hall : ∀ s ∈ sums, ∀ c ∈ s.head?, isNameChar c = false ∧ c ≠ '.' ∧
      isGap c = false ∧ c ≠ '=' ∧ c ≠ '>' := by decide
    simpa using hall s hs
  inlined := by rw [Lexeme.inlined]
  step := by
    rintro _ rfl found outer
    rw [Reading.step, Reading.symbol, if_pos hs]
    rfl

theorem emits_mark {behind : Bool} {s : Text} {x : Lexeme} {items : List Item}
    {row : List Lexeme} {ts : List Token} (hs : Marks var behind s x) (hne : items ≠ [])
    (h : Emits graph var false items row ts) :
    Emits graph var behind (symbol s :: items) (x :: row) (.symbol s :: ts) := by
  refine h.prepend [x] (emit_cons _ _) ?_ (List.cons_ne_nil (Token.symbol s) []) ?_ (fun c hc => ?_)
    (fun hne t ht => ht.cons hne) (fun hnil => absurd hnil hne) fun place hplace found outer => ?_
  · rw [emit_symbol]
    exact hs.legal.writes
  · rintro t ⟨⟩ c hc
    obtain ⟨hequal, hgreater⟩ := (h.front c hc).mark rfl
    simp [Token.endsBefore, hequal, hgreater]
  · rw [emit_symbol] at hc
    obtain ⟨hname, hpoint, hgap, hmark⟩ := hs.first c hc
    refine front_other hname hpoint hmark fun hgap' => ?_
    rw [hgap] at hgap'
    cases hgap'
  · refine ⟨.expecting, rfl, .single ?_⟩
    rw [Lexeme.inlinedAll_singleton, hs.inlined]
    exact hs.step place hplace found outer

end Emitting

end TwinGraph
