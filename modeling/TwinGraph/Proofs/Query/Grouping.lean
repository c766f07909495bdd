import TwinGraph.Proofs.Query.Operands

/-! Conditions whose calls become operators. What a call is applied to stays together exactly if no
argument has a looser operator at its root. -/
namespace TwinGraph

open Query Item

section Emitting

variable {graph : Text} {var : Option Text}

/-! ### Calls -/

theorem head_of_sameLetters {name keyword : Text} (h : name.sameLetters keyword = true)
    (hkeyword : IsKeyword keyword) (hne : keyword ≠ []) : name.head?.any isNameChar = true := by
  cases name with
  | nil =>
    rw [Text.sameLetters, beq_iff_eq] at h
    exact absurd (List.map_eq_nil_iff.mp h.symm) hne
  | cons c cs => exact isNameChar_of_sameLetters hkeyword h c List.mem_cons_self

theorem head_of_between {name operator : Text} (h : betweenOperator name = some operator) :
    name.head?.any isNameChar = true := by
  rcases betweenOperator_eq_some h with ⟨hname, -⟩ | ⟨hname, -⟩ | ⟨hname, -⟩
  all_goals exact head_of_sameLetters hname (by decide) (by decide)

theorem head_of_test {name test : Text} (h : nullTest name = some test) :
    name.head?.any isNameChar = true ∧ (' ' :: test).getLast?.any isNameChar = true := by
  rcases nullTest_eq_some h with ⟨hname, rfl⟩ | ⟨hname, rfl⟩
  all_goals exact ⟨head_of_sameLetters hname (by decide) (by decide), by decide⟩

theorem Front.not_gap {behind : Bool} {piece : List Item} {c : Char}
    (h : Front var behind piece c) (htrim : Trimmed piece) : isGap c = false := by
  refine Bool.eq_false_iff.mpr fun hgap => ?_
  obtain ⟨s, rest, rfl⟩ := h.gap hgap
  cases htrim.first (space s) rfl

theorem Front.ofCall {name : Text} {args piece items : List Item} {c : Char}
    (h : Front var false piece c) (hname : name.head?.any isNameChar = true)
    (htrim : Trimmed piece) : Front var false (call name args :: items) c where
  gap hgap := by
    rw [h.not_gap htrim] at hgap
    cases hgap
  point := h.point
  mark := h.mark
  number := by simp
  letter _ := ⟨call name args, items, rfl, Or.inr ⟨rfl, .word name, by simp [tokens], hname⟩⟩

theorem emits_between {name operator : Text} {args left right items : List Item}
    {l r row : List Lexeme} {tl tr ts : List Token} (hready : Ready var (call name args :: items))
    (htidy : ∀ x ∈ args, x.Tidy) (hname : betweenOperator name = some operator)
    (hargs : arguments args = [left, right]) (hne : left ≠ [] ∧ right ≠ [])
    (hl : Emits graph var false left l tl) (hr : Emits graph var false right r tr)
    (h : Emits graph var true items row ts) :
    ∃ us, Emits graph var false (call name args :: items) (.betweenCall operator l r :: row)
      us := by
  obtain ⟨op, hop, hruns⟩ := Reading.runs_between hname
  have htrim : ∀ piece ∈ arguments args, Trimmed piece := fun _ h => (solid_of_mem_arguments h).1
  rw [hargs, List.forall_mem_cons, List.forall_mem_singleton] at htrim
  have hempty : tl ≠ [] ∧ tr ≠ [] :=
    ⟨fun htl => hne.1 (hl.empty htl), fun htr => hne.2 (hr.empty htr)⟩
  have htext : emit graph var [call name args] = _ := emit_between htidy hname hargs
  have hwrites : Token.Writes (tl ++ (op ++ [.space [' ']] ++ tr))
      (emit graph var [call name args]) := by
    rw [htext]
    refine hl.writes.append (hop.append hr.writes fun t ht c hc => ?_) fun t ht c hc => ?_
    · rw [List.getLast?_concat] at ht
      cases ht
      rw [Token.endsBefore, (hr.front c hc).not_gap htrim.2]
      rfl
    · cases hc
      exact (hl.last t ht).plain ' ' (by decide) (by decide) fun _ => htrim.1.last
  refine ⟨_, Emits.one hready rfl hwrites (by simp) (fun c hc => ?_) (fun t ht => ?_)
    (fun found outer => ?_) h⟩
  · rw [htext, List.head?_append_of_ne_nil _ (hl.writes.eq_nil_iff.not.mp hempty.1)] at hc
    exact (hl.front c hc).ofCall (head_of_between hname) htrim.1
  · rw [← List.append_assoc, List.getLast?_append_of_ne_nil _ hempty.2] at ht
    have hlast := hr.last t ht
    refine ⟨fun c hname hpoint _ => hlast.plain c hname hpoint fun _ => htrim.2.last,
      fun hword => hlast.letter ?_⟩
    rwa [List.map_singleton, nativeAll_singleton, native_inScope_between htidy hname hargs,
      List.getLast?_append_of_ne_nil _ (List.cons_ne_nil _ _),
      List.getLast?_cons_of_ne_nil (nativeAll_ne_nil (List.map_eq_nil_iff.not.mpr hne.2))] at hword
  · obtain ⟨place, hplace, hfirst⟩ := hl.runs .expecting rfl found outer
    obtain ⟨place', hplace', hrest⟩ := hr.runs .expecting rfl
      (.binary (.between operator) ::
        ((Lexeme.inlinedAll (Operand.inScope var) l).reverse ++ found)) outer
    refine ⟨place', hplace', ?_⟩
    have hall := hfirst.append ((hruns place hplace _ outer).append hrest)
    simpa [Lexeme.inlined] using hall

theorem emits_test {name test : Text} {args operand items : List Item}
    {x row : List Lexeme} {tx ts : List Token} (hready : Ready var (call name args :: items))
    (htidy : ∀ x ∈ args, x.Tidy) (hname : nullTest name = some test)
    (hargs : arguments args = [operand]) (hne : operand ≠ [])
    (hx : Emits graph var false operand x tx) (h : Emits graph var true items row ts) :
    ∃ us, Emits graph var false (call name args :: items) (.testCall test x :: row) us := by
  obtain ⟨us, w, htest, hruns⟩ := Reading.runs_nullTest hname
  have htrim : ∀ piece ∈ arguments args, Trimmed piece := fun _ h => (solid_of_mem_arguments h).1
  rw [hargs, List.forall_mem_singleton] at htrim
  have hempty : tx ≠ [] := fun htx => hne (hx.empty htx)
  have htext : emit graph var [call name args] = _ := emit_test htidy hname hargs hne
  have hwrites : Token.Writes (tx ++ (us ++ [.word w])) (emit graph var [call name args]) := by
    rw [htext]
    refine hx.writes.append htest fun t ht c hc => ?_
    cases hc
    exact (hx.last t ht).plain ' ' (by decide) (by decide) fun _ => htrim.last
  refine ⟨_, Emits.one hready rfl hwrites (by simp) (fun c hc => ?_) (fun t ht => ?_)
    (fun found outer => ?_) h⟩
  · rw [htext, List.head?_append_of_ne_nil _ (hx.writes.eq_nil_iff.not.mp hempty)] at hc
    exact (hx.front c hc).ofCall (head_of_test hname).1 htrim
  · rw [← List.append_assoc, List.getLast?_concat] at ht
    cases ht
    refine ⟨fun c hname hpoint _ => Token.firm_word w c hname hpoint, fun hword => ?_⟩
    -- The test ends in a letter.
    rw [List.map_singleton, nativeAll_singleton,
      native_inScope_test htidy hname hargs hne, List.getLast?_concat] at hword
    have hplain := hword (symbol (' ' :: test)) rfl
    rw [endsInWord, (head_of_test hname).2] at hplain
    cases hplain
  · obtain ⟨place, hplace, hfirst⟩ := hx.runs .expecting rfl found outer
    have hall := hfirst.append (hruns place hplace _ outer)
    exact ⟨.behind, rfl, by simpa [Lexeme.inlined] using hall⟩

/-! ### Whole conditions -/

/-- What comes out for operands and operators in a row is read as they are, with calls as
operators. -/
theorem Spelled.emits (graph : Text) (hvar : ∀ v ∈ var, isIdentifier v = true)
    (hfree : ∀ v ∈ var, operatorWords.any (Text.sameLetters v) = false) {behind : Bool}
    {items : List Item} {row : List Lexeme} (h : Spelled behind items row)
    (hready : Ready var items) : ∃ ts, Emits graph var behind items row ts := by
  induction h with
  | nil => exact ⟨[], emits_nil⟩
  | space s _ ih =>
    obtain ⟨ts, hts⟩ := ih hready.tail
    exact ⟨_, emits_space hready hts⟩
  | name hw _ ih =>
    obtain ⟨ts, hts⟩ := ih hready.tail
    exact emits_name hvar hfree hw hready hts
  | constant hw _ ih =>
    obtain ⟨ts, hts⟩ := ih hready.tail
    exact ⟨_, emits_constant hw hready hts⟩
  | literal s _ ih =>
    obtain ⟨ts, hts⟩ := ih hready.tail
    exact ⟨_, emits_literal hready hts⟩
  | group _ _ ihinner ih =>
    obtain ⟨us, hus⟩ := ihinner hready.inner
    obtain ⟨ts, hts⟩ := ih hready.tail
    exact ⟨_, emits_group hready hus hts⟩
  | not hw hrest ih =>
    obtain ⟨ts, hts⟩ := ih hready.tail
    exact ⟨_, emits_connector (connects_not hw) hready hrest.ne_nil hts⟩
  | notCall hw _ ih =>
    obtain ⟨ts, hts⟩ := ih hready.grouped
    exact ⟨_, emits_connectorCall (connects_not hw) hready hts⟩
  | sign hs hrest ih =>
    obtain ⟨ts, hts⟩ := ih hready.tail
    exact ⟨_, emits_mark (marks_sign hs) hrest.ne_nil hts⟩
  | compare hs hrest ih =>
    obtain ⟨ts, hts⟩ := ih hready.tail
    exact ⟨_, emits_mark (marks_compare hs) hrest.ne_nil hts⟩
  | add hs hrest ih =>
    obtain ⟨ts, hts⟩ := ih hready.tail
    exact ⟨_, emits_mark (marks_add hs) hrest.ne_nil hts⟩
  | connective hw hrest ih =>
    obtain ⟨ts, hts⟩ := ih hready.tail
    exact ⟨_, emits_connector (connects_connective hw) hready hrest.ne_nil hts⟩
  | connectiveCall hw _ ih =>
    obtain ⟨ts, hts⟩ := ih hready.grouped
    exact ⟨_, emits_connectorCall (connects_connective hw) hready hts⟩
  | between hname hargs hleft hright hrest ihl ihr ih =>
    obtain ⟨tl, htl⟩ := ihl (hready.piece (by simp [hargs]))
    obtain ⟨tr, htr⟩ := ihr (hready.piece (by simp [hargs]))
    obtain ⟨ts, hts⟩ := ih hready.tail
    refine emits_between hready (tidy_of_arguments ?_) hname hargs
      ⟨hleft.ne_nil, hright.ne_nil⟩ htl htr hts
    rw [hargs, List.forall_mem_cons, List.forall_mem_singleton]
    exact ⟨hleft.tidy, hright.tidy⟩
  | test hname hargs hoperand hrest ihx ih =>
    obtain ⟨tx, htx⟩ := ihx (hready.piece (by simp [hargs]))
    obtain ⟨ts, hts⟩ := ih hready.tail
    refine emits_test hready (tidy_of_arguments ?_) hname hargs hoperand.ne_nil htx hts
    rw [hargs, List.forall_mem_singleton]
    exact hoperand.tidy

end Emitting

theorem connective?_level {w : Text} {op : Binary} (h : connective? w = some op) :
    op.level < 7 := by
  unfold connective? at h
  split at h
  · cases h
    decide
  · split at h <;> cases h
    decide

theorem Spelled.ofCalls {behind : Bool} {items : List Item} {row : List Lexeme}
    (h : Spelled behind items row) : ∀ x ∈ row, x.OfCalls := by
  induction h with
  | nil => simp
  | space _ _ ih => exact ih
  | name _ _ ih | constant _ _ ih | literal _ _ ih =>
    exact List.forall_mem_cons.mpr ⟨.operand _, ih⟩
  | group _ _ ihinner ih => exact List.forall_mem_cons.mpr ⟨.group ihinner, ih⟩
  | not _ _ ih | notCall _ _ ih | sign _ _ ih => exact List.forall_mem_cons.mpr ⟨.unary _, ih⟩
  | compare _ _ ih | add _ _ ih =>
    exact List.forall_mem_cons.mpr ⟨.binary (by simp [Binary.level]), ih⟩
  | connective hw _ ih | connectiveCall hw _ ih =>
    exact List.forall_mem_cons.mpr ⟨.binary (connective?_level hw), ih⟩
  | between _ _ _ _ _ ihl ihr ih => exact List.forall_mem_cons.mpr ⟨.betweenCall ihl ihr, ih⟩
  | test _ _ _ _ ihx ih => exact List.forall_mem_cons.mpr ⟨.testCall ihx, ih⟩

namespace Query

/-- A condition with a tree comes out as the same operands and operators, with each call as its
operator between or behind what its arguments become. They are read as the same tree exactly if no
argument has a looser operator at its root. The names must not run into a word behind a call. -/
theorem conditionText_reads {graph : Text} {var : Option Text}
    (hvar : ∀ v ∈ var, isIdentifier v = true)
    (hfree : ∀ v ∈ var, operatorWords.any (Text.sameLetters v) = false) {s : Text}
    {items : List Item} {f : Formula} (hitems : readItems s = .ok items)
    (hspelled : Spelled false items f.flat) (hordered : f.Ordered)
    (hlinked : Linked (Parted var) items) :
    ∃ out, conditionText graph var s = .ok out ∧
      cypherRow out = some (f.native (Operand.inScope var)).flat ∧
      ((f.native (Operand.inScope var)).Reads out ↔ f.Fits) ∧
      ∀ g : Formula, g.Reads out → (g = f.native (Operand.inScope var) ↔ f.Fits) := by
  have hread := ofText?_of_readItems hitems
  have hready : Ready var items := by
    refine ⟨?_, hlinked⟩
    rw [tokensAll_ofText? hread]
    exact lexed_ofText s
  obtain ⟨ts, hts⟩ := hspelled.emits graph hvar hfree hready
  obtain ⟨place, hplace, hruns⟩ := hts.runs .expecting rfl [] []
  have hrow : cypherRow (emit graph var items) = some (f.native (Operand.inScope var)).flat := by
    rw [cypherRow, hts.writes.ofText, Formula.flat_native]
    have hresult : ts.foldlM Reading.step Reading.start = _ := hruns
    rw [hresult, Option.bind_some, Reading.result, hplace]
    simp
  have hordered' := Formula.ordered_native_iff (Operand.inScope var) hordered
    (Formula.ofCalls_of_flat hspelled.ofCalls)
  have hreads : (f.native (Operand.inScope var)).Reads (emit graph var items) ↔ f.Fits := by
    rw [Formula.Reads, hordered']
    exact and_iff_right hrow
  refine ⟨emit graph var items, conditionText_inScope graph hvar hread, hrow, hreads,
    fun g hg => ⟨fun heq => ?_, fun hfits => hg.unique (hreads.mpr hfits)⟩⟩
  rw [heq] at hg
  exact hreads.mp hg

def sumGroup : Item :=
  .group [.word "a", .space " ", .symbol "+", .space " ", .word "b"]

/-- `CONTAINS((a + b), 'x') AND NOT IS_NULL(floor.$dtId)` -/
def floorItems : List Item :=
  [.call "CONTAINS" [sumGroup, .symbol ",", .space " ", .literal "'x'"], .space " ", .word "AND",
    .space " ", .word "NOT", .space " ", .call "IS_NULL" [.word "floor.$dtId"]]

def floorFormula : Formula :=
  .binary .and
    (.betweenCall "CONTAINS"
      (.group (.binary (.add "+") (.operand (.name "a")) (.operand (.name "b"))))
      (.operand (.constant "'x'")))
    (.unary .not (.testCall "IS NULL" (.operand (.name "floor.$dtId"))))

theorem floor_reads :
    readItems "CONTAINS((a + b), 'x') AND NOT IS_NULL(floor.$dtId)" = .ok floorItems ∧
    Spelled false floorItems floorFormula.flat ∧ floorFormula.Ordered ∧
    Linked (Parted (some "T")) floorItems ∧ floorFormula.Fits ∧
    conditionText "g" (some "T") "CONTAINS((a + b), 'x') AND NOT IS_NULL(floor.$dtId)" =
      .ok "(T.a + T.b) CONTAINS 'x' AND NOT T.floor['$dtId'] IS NULL" ∧
    (floorFormula.native (Operand.inScope (some "T"))).Reads
      "(T.a + T.b) CONTAINS 'x' AND NOT T.floor['$dtId'] IS NULL" := by
  have hread : readItems "CONTAINS((a + b), 'x') AND NOT IS_NULL(floor.$dtId)" =
      .ok floorItems := by
    have htokens : Token.ofText "CONTAINS((a + b), 'x') AND NOT IS_NULL(floor.$dtId)" =
        tokensAll floorItems := by decide +kernel
    exact readItems_of_tokens htokens rfl
  have hspelled : Spelled false floorItems floorFormula.flat := by
    have hsum : Spelled false [sumGroup] _ :=
      .group (.name (by decide +kernel) (.space _ (.add (by decide)
        (.space _ (.name (by decide +kernel) .nil))))) .nil
    have htest : Spelled false [.call "IS_NULL" [.word "floor.$dtId"]] _ :=
      .test rfl rfl (.name (by decide +kernel) .nil) .nil
    exact .between rfl rfl hsum (.literal _ .nil)
      (.space _ (.connective rfl (.space _ (.not rfl (.space _ htest)))))
  have hlinked : Linked (Parted (some "T")) floorItems := by
    have hsum : Linked (Parted (some "T"))
        [.word "a", .space " ", .symbol "+", .space " ", .word "b"] :=
      .intro (by decide +kernel) (by simp) (by simp)
    have hcontains : Linked (Parted (some "T"))
        [sumGroup, .symbol ",", .space " ", .literal "'x'"] :=
      .intro (by decide +kernel) (by simp [sumGroup]) (by simpa [sumGroup] using hsum)
    have htest : Linked (Parted (some "T")) [.word "floor.$dtId"] :=
      .intro (by decide +kernel) (by simp) (by simp)
    refine .intro (by decide +kernel) (fun name args hmem => ?_) (by simp [floorItems])
    simp only [floorItems, List.mem_cons, List.not_mem_nil, Item.call.injEq, reduceCtorEq,
      or_false, false_or] at hmem
    rcases hmem with ⟨-, rfl⟩ | ⟨-, rfl⟩
    · exact hcontains
    · exact htest
  have hordered : floorFormula.Ordered := by decide +kernel
  have hfits : floorFormula.Fits := by decide +kernel
  have htext : conditionText "g" (some "T") "CONTAINS((a + b), 'x') AND NOT IS_NULL(floor.$dtId)" =
      .ok "(T.a + T.b) CONTAINS 'x' AND NOT T.floor['$dtId'] IS NULL" := by decide +kernel
  obtain ⟨out, hout, -, hreads, -⟩ :=
    @conditionText_reads "g" (some "T") (by decide) (by decide) _ _ _ hread hspelled hordered
      hlinked
  refine ⟨hread, hspelled, hordered, hlinked, hfits, htext, ?_⟩
  rw [htext] at hout
  cases hout
  exact hreads.mpr hfits

/-- `CONTAINS(T.a + T.b, 'x')` -/
def sumItems : List Item :=
  [.call "CONTAINS" [.word "T.a", .space " ", .symbol "+", .space " ", .word "T.b", .symbol ",",
    .space " ", .literal "'x'"]]

def sumFormula : Formula :=
  .betweenCall "CONTAINS" (.binary (.add "+") (.operand (.name "T.a")) (.operand (.name "T.b")))
    (.operand (.constant "'x'"))

theorem sum_is_torn :
    readItems "CONTAINS(T.a + T.b, 'x')" = .ok sumItems ∧
    Spelled false sumItems sumFormula.flat ∧ sumFormula.Ordered ∧
    conditionText "g" none "CONTAINS(T.a + T.b, 'x')" = .ok "T.a + T.b CONTAINS 'x'" ∧
    (Formula.binary (.add "+") (.operand (.name "T.a"))
      (.binary (.between "CONTAINS") (.operand (.name "T.b")) (.operand (.constant "'x'")))).Reads
        "T.a + T.b CONTAINS 'x'" ∧
    ¬(sumFormula.native (Operand.inScope none)).Reads "T.a + T.b CONTAINS 'x'" := by
  have hread : readItems "CONTAINS(T.a + T.b, 'x')" = .ok sumItems := by
    have htokens : Token.ofText "CONTAINS(T.a + T.b, 'x')" = tokensAll sumItems := by
      decide +kernel
    exact readItems_of_tokens htokens rfl
  have hspelled : Spelled false sumItems sumFormula.flat := by
    have hsum : Spelled false [.word "T.a", .space " ", .symbol "+", .space " ", .word "T.b"] _ :=
      .name (by decide +kernel) (.space _ (.add (by decide) (.space _
        (.name (by decide +kernel) .nil))))
    exact .between rfl rfl hsum (.literal _ .nil) .nil
  have hrow : cypherRow "T.a + T.b CONTAINS 'x'" = some [.operand (.name "T.a"),
      .binary (.add "+"), .operand (.name "T.b"), .binary (.between "CONTAINS"),
      .operand (.constant "'x'")] := by
    have htokens : Token.ofText "T.a + T.b CONTAINS 'x'" = [.word "T.a", .space " ", .symbol "+",
        .space " ", .word "T.b", .space " ", .word "CONTAINS", .space " ", .literal "'x'"] := by
      decide +kernel
    rw [cypherRow, htokens]
    rfl
  exact ⟨hread, hspelled, by decide +kernel, by decide +kernel, ⟨hrow, by decide +kernel⟩,
    fun h => absurd h.2 (by decide +kernel)⟩

end Query

end TwinGraph
