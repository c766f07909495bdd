import TwinGraph.Proofs.Query.Arguments

/-! Which calls become operators. An operator between two things needs two arguments, a test behind
one thing needs one, and none of them may be empty. Calls are changed by this rule as long as every
test has one argument and no argument of an operator is empty. -/
namespace TwinGraph.Item

/-- The operator of the call, if it has one, finds its arguments. -/
def Suits (name : Text) (args : List Item) : Prop :=
  ((betweenOperator name).isSome ∧
    ∃ left right, arguments args = [left, right] ∧ left ≠ [] ∧ right ≠ []) ∨
  ((nullTest name).isSome ∧ ∃ operand, arguments args = [operand] ∧ operand ≠ [])

mutual

/-- What becomes of an item by the rule: a call turns into its operator if its own arguments suit
it, and else stays a call with the same name and as many arguments. -/
inductive Rewritten : Item → List Item → Prop
  | word (s) : Rewritten (word s) [word s]
  | literal (s) : Rewritten (literal s) [literal s]
  | space (s) : Rewritten (space s) [space s]
  | symbol (s) : Rewritten (symbol s) [symbol s]
  | group {items out} : RewrittenAll items out → Rewritten (group items) [group out]
  | between {name args operator left right left' right'} :
      betweenOperator name = some operator → arguments args = [left, right] →
      left ≠ [] → right ≠ [] → RewrittenAll left left' → RewrittenAll right right' →
      Rewritten (call name args) (left' ++ symbol (' ' :: operator ++ [' ']) :: right')
  | test {name args test operand operand'} :
      nullTest name = some test → arguments args = [operand] → operand ≠ [] →
      RewrittenAll operand operand' →
      Rewritten (call name args) (operand' ++ [symbol (' ' :: test)])
  | call {name args out} : ¬Suits name args →
      RewrittenEach (commaPieces args) (commaPieces out) →
      Rewritten (call name args) [call name out]

inductive RewrittenAll : List Item → List Item → Prop
  | nil : RewrittenAll [] []
  | cons {item items run out} : Rewritten item run → RewrittenAll items out →
      RewrittenAll (item :: items) (run ++ out)

inductive RewrittenEach : List (List Item) → List (List Item) → Prop
  | nil : RewrittenEach [] []
  | cons {piece pieces out outs} : RewrittenAll piece out → RewrittenEach pieces outs →
      RewrittenEach (piece :: pieces) (out :: outs)

end

/-- A test has no comma among its arguments, and an operator with two arguments no empty one. -/
structure Proper (name : Text) (args : List Item) : Prop where
  between : (betweenOperator name).isSome → ∀ left right, arguments args = [left, right] →
    left ≠ [] ∧ right ≠ []
  test : (nullTest name).isSome → ∀ arg ∈ args, arg.isComma = false

inductive Tidy : Item → Prop
  | word (s) : Tidy (word s)
  | literal (s) : Tidy (literal s)
  | space (s) : Tidy (space s)
  | symbol (s) : Tidy (symbol s)
  | group {items} : (∀ item ∈ items, Tidy item) → Tidy (group items)
  | call {name args} : Proper name args → (∀ arg ∈ args, Tidy arg) → Tidy (call name args)

theorem nullTest_of_between {name operator : Text} (h : betweenOperator name = some operator) :
    nullTest name = none := by
  have hclash : ∀ {word word' : Text}, name.sameLetters word = true →
      word.foldCase ≠ word'.foldCase → ¬name.sameLetters word' = true := by
    intro word word' hword hne hword'
    rw [Text.sameLetters, beq_iff_eq] at hword hword'
    exact hne (hword.symm.trans hword')
  unfold nullTest
  rcases betweenOperator_eq_some h with ⟨hname, -⟩ | ⟨hname, -⟩ | ⟨hname, -⟩
  all_goals rw [if_neg (hclash hname (by decide)), if_neg (hclash hname (by decide))]

theorem uncut_of_mem_commaPieces {items piece : List Item} (h : piece ∈ commaPieces items) :
    ∀ x ∈ piece, x.isComma = false := by
  induction items generalizing piece with
  | nil =>
    rw [commaPieces, List.mem_singleton] at h
    simp [h]
  | cons item items ih =>
    cases hcomma : item.isComma with
    | true =>
      rw [commaPieces_comma hcomma, List.mem_cons] at h
      rcases h with rfl | h
      · simp
      · exact ih h
    | false =>
      have hone : ∀ x ∈ [item], x.isComma = false := List.forall_mem_singleton.mpr hcomma
      obtain ⟨first, pieces, hold, hitem⟩ := commaPieces_append hone items
      rw [← List.singleton_append, hitem, List.mem_cons] at h
      rw [hold] at ih
      rcases h with rfl | h
      · exact List.forall_mem_append.mpr ⟨hone, ih List.mem_cons_self⟩
      · exact ih (List.mem_cons_of_mem _ h)

theorem two_le_length_commaPieces {items : List Item} (h : ∃ x ∈ items, x.isComma = true) :
    2 ≤ (commaPieces items).length := by
  obtain ⟨comma, hmem, hcomma⟩ := h
  induction items with
  | nil => cases hmem
  | cons item items ih =>
    cases hitem : item.isComma with
    | true =>
      obtain ⟨piece, pieces, hpieces⟩ := exists_commaPieces items
      rw [commaPieces_comma hitem, hpieces]
      simp
    | false =>
      have hrest : comma ∈ items := by
        rcases List.mem_cons.mp hmem with rfl | hrest
        · rw [hcomma] at hitem
          cases hitem
        · exact hrest
      obtain ⟨piece, pieces, hold, hnew⟩ :=
        commaPieces_append (List.forall_mem_singleton.mpr hitem) items
      have hlength := ih hrest
      rw [hold] at hlength
      rw [← List.singleton_append, hnew]
      exact hlength

theorem arguments_of_comma {args : List Item} (h : ∃ x ∈ args, x.isComma = true) :
    arguments args = (commaPieces args).map trimSpaces := by
  obtain ⟨comma, hmem, hcomma⟩ := h
  have hspace : ¬comma.isSpace = true := by
    rw [isComma_eq_true.mp hcomma]
    exact Bool.false_ne_true
  have hall : ¬args.all isSpace = true := fun hall =>
    hspace (List.all_eq_true.mp hall comma hmem)
  rw [arguments, if_neg hall]

theorem arguments_ne_singleton {args : List Item} (h : ∃ x ∈ args, x.isComma = true)
    (operand : List Item) : arguments args ≠ [operand] := by
  intro hargs
  have hlength := two_le_length_commaPieces h
  rw [← List.length_map (f := trimSpaces), ← arguments_of_comma h, hargs, List.length_singleton]
    at hlength
  omega

theorem arguments_of_uncut {args : List Item} (h : ∀ x ∈ args, x.isComma = false) :
    arguments args = if args.all isSpace then [] else [trimSpaces args] := by
  obtain ⟨piece, pieces, hnil, hargs⟩ := commaPieces_append h []
  rw [commaPieces, List.cons.injEq] at hnil
  obtain ⟨rfl, rfl⟩ := hnil
  rw [List.append_nil] at hargs
  rw [arguments, hargs]
  rfl

theorem solid_of_mem_arguments {args piece : List Item} (h : piece ∈ arguments args) :
    Trimmed piece ∧ ∀ x ∈ piece, x.isComma = false := by
  unfold arguments at h
  split at h
  · cases h
  · obtain ⟨piece', hpiece', rfl⟩ := List.mem_map.mp h
    exact ⟨trimmed_trimSpaces piece', fun x hx =>
      uncut_of_mem_commaPieces hpiece' x (mem_of_mem_trimSpaces hx)⟩

theorem solid_nativeCall {name : Text} {args : List Item}
    (htest : (nullTest name).isSome → ∀ x ∈ args, x.isComma = false) :
    Solid (nativeCall name args) := by
  have hcall : Solid [call name args] := solid_singleton rfl rfl
  unfold nativeCall
  split
  · next operator hoperator =>
    split
    · next left right hargs =>
      obtain ⟨hleft, hleftUncut⟩ := solid_of_mem_arguments (hargs ▸ List.mem_cons_self)
      obtain ⟨hright, hrightUncut⟩ := solid_of_mem_arguments
        (hargs ▸ List.mem_cons_of_mem _ List.mem_cons_self)
      refine ⟨hleft.joined hright rfl, by simp, ?_⟩
      rw [List.forall_mem_append, List.forall_mem_cons]
      exact ⟨hleftUncut, by simp [isComma], hrightUncut⟩
    · exact hcall
  · split
    · next test hname =>
      split
      · exact hcall
      · refine ⟨(trimmed_trimSpaces args).joined trimmed_nil rfl, by simp, ?_⟩
        rw [List.forall_mem_append, List.forall_mem_singleton]
        refine ⟨fun x hx => htest ?_ x (mem_of_mem_trimSpaces hx), ?_⟩
        · rw [hname]
          rfl
        · simp [isComma]
    · exact hcall

theorem uncut_flatMap {f : Item → List Item} {items : List Item}
    (h : ∀ item ∈ items, Carries id f item) (huncut : ∀ item ∈ items, item.isComma = false) :
    ∀ x ∈ items.flatMap f, x.isComma = false := by
  intro x hx
  obtain ⟨item, hitem, hx⟩ := List.mem_flatMap.mp hx
  cases hspace : item.isSpace with
  | true =>
    rw [(h item hitem).of_space hspace, List.mem_singleton] at hx
    rw [hx]
    exact huncut item hitem
  | false => exact ((h item hitem).solid hspace (huncut item hitem)).uncut x hx

theorem Proper.of_between {name operator : Text} {args left right : List Item}
    (hname : betweenOperator name = some operator) (hargs : arguments args = [left, right])
    (hleft : left ≠ []) (hright : right ≠ []) : Proper name args := by
  refine ⟨fun _ left' right' hargs' => ?_, fun hsome => ?_⟩
  · rw [hargs] at hargs'
    cases hargs'
    exact ⟨hleft, hright⟩
  · rw [nullTest_of_between hname] at hsome
    cases hsome

theorem carries_native {item : Item} (h : item.Tidy) : Carries id native item := by
  induction h with
  | word s | literal s | space s =>
    rw [Carries, native]
    first
      | exact rfl
      | exact solid_singleton rfl rfl
  | symbol s =>
    rw [Carries, native]
    split
    · rfl
    · next hsymbol =>
      rw [Bool.or_eq_true, not_or, Bool.not_eq_true, Bool.not_eq_true] at hsymbol
      exact solid_singleton hsymbol.1 hsymbol.2
  | group =>
    rw [Carries, native]
    exact solid_singleton rfl rfl
  | @call name args hproper _ ih =>
    rw [Carries, native, nativeAll_eq_flatMap]
    exact solid_nativeCall fun hname => uncut_flatMap ih (hproper.test hname)

section Calls

variable {name : Text} {args : List Item} (htidy : ∀ arg ∈ args, Tidy arg)

include htidy

theorem arguments_nativeAll : arguments (nativeAll args) = (arguments args).map nativeAll := by
  rw [nativeAll_eq_flatMap, arguments_flatMap fun arg harg => carries_native (htidy arg harg),
    argumentsBy_id]
  exact List.map_congr_left fun piece _ => (nativeAll_eq_flatMap piece).symm

theorem all_isSpace_nativeAll : (nativeAll args).all isSpace = args.all isSpace := by
  rw [nativeAll_eq_flatMap]
  exact all_isSpace_flatMap fun arg harg => carries_native (htidy arg harg)

theorem trimSpaces_nativeAll : trimSpaces (nativeAll args) = nativeAll (trimSpaces args) := by
  rw [nativeAll_eq_flatMap, nativeAll_eq_flatMap]
  exact trimSpaces_flatMap fun arg harg => carries_native (htidy arg harg)

theorem native_between {operator : Text} {left right : List Item}
    (hname : betweenOperator name = some operator) (hargs : arguments args = [left, right]) :
    (call name args).native =
      nativeAll left ++ symbol (' ' :: operator ++ [' ']) :: nativeAll right := by
  have hnative : arguments (nativeAll args) = [nativeAll left, nativeAll right] := by
    rw [arguments_nativeAll htidy, hargs]
    rfl
  rw [native, nativeCall, hname]
  dsimp only
  rw [hnative]

theorem native_nullTest {test : Text} (hname : nullTest name = some test)
    (hfull : ¬args.all isSpace = true) :
    (call name args).native = trimSpaces (nativeAll args) ++ [symbol (' ' :: test)] := by
  have hbetween : betweenOperator name = none := by
    cases h : betweenOperator name with
    | none => rfl
    | some operator =>
      rw [nullTest_of_between h] at hname
      cases hname
  have hnative : ¬(trimSpaces (nativeAll args)).isEmpty = true := by
    rwa [List.isEmpty_iff, trimSpaces_eq_nil, all_isSpace_nativeAll htidy]
  rw [native, nativeCall, hbetween, hname]
  dsimp only
  rw [if_neg hnative]

theorem native_test {test : Text} {operand : List Item} (hname : nullTest name = some test)
    (hargs : arguments args = [operand]) (hne : operand ≠ []) :
    (call name args).native = nativeAll operand ++ [symbol (' ' :: test)] := by
  have huncut : ∀ arg ∈ args, arg.isComma = false := by
    intro arg harg
    rw [← Bool.not_eq_true]
    exact fun hcomma => arguments_ne_singleton ⟨arg, harg, hcomma⟩ operand hargs
  have hoperand : operand = trimSpaces args := by
    rw [arguments_of_uncut huncut] at hargs
    split at hargs
    · cases hargs
    · exact (List.singleton_inj.mp hargs).symm
  have hfull : ¬args.all isSpace = true := by
    rwa [← trimSpaces_eq_nil, ← hoperand]
  rw [native_nullTest htidy hname hfull, hoperand, trimSpaces_nativeAll htidy]

theorem native_unsuited (hproper : Proper name args) (h : ¬Suits name args) :
    (call name args).native = [call name (nativeAll args)] := by
  rw [native, nativeCall]
  split
  · next operator hname =>
    split
    · next left right hargs =>
      rw [arguments_nativeAll htidy] at hargs
      obtain ⟨left', rest, hargs', -, hrest⟩ := List.map_eq_cons_iff.mp hargs
      obtain ⟨right', rest', rfl, -, hnil⟩ := List.map_eq_cons_iff.mp hrest
      rw [List.map_eq_nil_iff.mp hnil] at hargs'
      have hsome : (betweenOperator name).isSome := by rw [hname]; rfl
      obtain ⟨hleft, hright⟩ := hproper.between hsome left' right' hargs'
      exact absurd (Or.inl ⟨hsome, left', right', hargs', hleft, hright⟩) h
    · rfl
  · split
    · next test hname =>
      split
      · rfl
      · next hfull =>
        have hsome : (nullTest name).isSome := by rw [hname]; rfl
        rw [List.isEmpty_iff, trimSpaces_eq_nil, all_isSpace_nativeAll htidy] at hfull
        have hargs := arguments_of_uncut (hproper.test hsome)
        rw [if_neg hfull] at hargs
        refine absurd (Or.inr ⟨hsome, trimSpaces args, hargs, ?_⟩) h
        rw [Ne, trimSpaces_eq_nil]
        exact hfull
    · rfl

end Calls

theorem rewrittenAll_iff {items : List Item}
    (h : ∀ item ∈ items, ∀ out, Rewritten item out ↔ out = item.native) (out : List Item) :
    RewrittenAll items out ↔ out = nativeAll items := by
  induction items generalizing out with
  | nil =>
    rw [nativeAll]
    exact ⟨fun hall => by cases hall; rfl, by rintro rfl; exact .nil⟩
  | cons item items ih =>
    rw [List.forall_mem_cons] at h
    rw [nativeAll]
    constructor
    · rintro (_ | ⟨hitem, hitems⟩)
      rw [(h.1 _).mp hitem, (ih h.2 _).mp hitems]
    · rintro rfl
      exact .cons ((h.1 _).mpr rfl) ((ih h.2 _).mpr rfl)

theorem rewrittenEach_iff {pieces : List (List Item)}
    (h : ∀ piece ∈ pieces, ∀ item ∈ piece, ∀ out, Rewritten item out ↔ out = item.native)
    (outs : List (List Item)) : RewrittenEach pieces outs ↔ outs = pieces.map nativeAll := by
  induction pieces generalizing outs with
  | nil => exact ⟨fun hall => by cases hall; rfl, by rintro rfl; exact .nil⟩
  | cons piece pieces ih =>
    rw [List.forall_mem_cons] at h
    rw [List.map_cons]
    constructor
    · rintro (_ | ⟨hpiece, hpieces⟩)
      rw [(rewrittenAll_iff h.1 _).mp hpiece, (ih h.2 _).mp hpieces]
    · rintro rfl
      exact .cons ((rewrittenAll_iff h.1 _).mpr rfl) ((ih h.2 _).mpr rfl)

/-- The pieces say which items they were cut from. -/
theorem intercalate_commaPieces (items : List Item) :
    [symbol [',']].intercalate (commaPieces items) = items := by
  induction items with
  | nil => rfl
  | cons item items ih =>
    cases hcomma : item.isComma with
    | true =>
      obtain ⟨piece, pieces, hpieces⟩ := exists_commaPieces items
      rw [commaPieces_comma hcomma, hpieces, List.intercalate_cons_cons, ← hpieces, ih,
        isComma_eq_true.mp hcomma]
      rfl
    | false =>
      have hone : ∀ x ∈ [item], x.isComma = false := List.forall_mem_singleton.mpr hcomma
      obtain ⟨piece, pieces, hold, hnew⟩ := commaPieces_append hone items
      rw [List.singleton_append, List.singleton_append] at hnew
      rw [hold] at ih
      rw [hnew]
      cases pieces with
      | nil =>
        rw [List.intercalate_singleton] at ih ⊢
        rw [ih]
      | cons next pieces =>
        rw [List.intercalate_cons_cons] at ih ⊢
        rw [← ih]
        rfl

theorem rewritten_iff_native {item : Item} (h : item.Tidy) (out : List Item) :
    Rewritten item out ↔ out = item.native := by
  induction h generalizing out with
  | word s | literal s | space s | symbol s =>
    rw [native]
    exact ⟨fun hout => by cases hout; rfl, by rintro rfl; constructor⟩
  | group _ ih =>
    rw [native]
    constructor
    · rintro (_ | _ | _ | _ | hitems)
      rw [(rewrittenAll_iff (fun item hitem => ih item hitem) _).mp hitems]
    · rintro rfl
      exact .group ((rewrittenAll_iff (fun item hitem => ih item hitem) _).mpr rfl)
  | @call name args hproper htidy ih =>
    -- The arguments of the call are trimmed pieces of the list, so the rule is known for them.
    have hall : ∀ piece ∈ arguments args, ∀ out, RewrittenAll piece out ↔ out = nativeAll piece :=
      fun piece hpiece => rewrittenAll_iff fun item hitem =>
        ih item (mem_of_mem_arguments hpiece hitem)
    have heach : ∀ out, RewrittenEach (commaPieces args) (commaPieces out) ↔
        out = nativeAll args := by
      intro out
      rw [rewrittenEach_iff fun piece hpiece item hitem =>
        ih item (mem_of_mem_commaPieces hpiece hitem)]
      have hpieces : (commaPieces args).map nativeAll = commaPieces (nativeAll args) := by
        rw [nativeAll_eq_flatMap,
          commaPieces_flatMap fun arg harg => carries_native (htidy arg harg), cutBy_id]
        exact List.map_congr_left fun piece _ => nativeAll_eq_flatMap piece
      rw [hpieces]
      refine ⟨fun heq => ?_, fun heq => by rw [heq]⟩
      rw [← intercalate_commaPieces out, heq, intercalate_commaPieces]
    constructor
    · intro hout
      cases hout with
      | @between _ _ operator left right left' right' hname hargs _ _ hleft hright =>
        rw [native_between htidy hname hargs]
        rw [(hall left (hargs ▸ List.mem_cons_self) _).mp hleft,
          (hall right (hargs ▸ List.mem_cons_of_mem _ List.mem_cons_self) _).mp hright]
      | @test _ _ test operand operand' hname hargs hne hoperand =>
        have hmem : operand ∈ arguments args := hargs ▸ List.mem_cons_self
        rw [native_test htidy hname hargs hne, (hall operand hmem _).mp hoperand]
      | call hsuits heachOut => rw [native_unsuited htidy hproper hsuits, (heach _).mp heachOut]
    · rintro rfl
      by_cases hsuits : Suits name args
      · rcases hsuits with ⟨hsome, left, right, hargs, hleft, hright⟩ | ⟨hsome, operand, hargs, hne⟩
        · obtain ⟨operator, hname⟩ := Option.isSome_iff_exists.mp hsome
          rw [native_between htidy hname hargs]
          exact .between hname hargs hleft hright
            ((hall left (hargs ▸ List.mem_cons_self) _).mpr rfl)
            ((hall right (hargs ▸ List.mem_cons_of_mem _ List.mem_cons_self) _).mpr rfl)
        · obtain ⟨test, hname⟩ := Option.isSome_iff_exists.mp hsome
          rw [native_test htidy hname hargs hne]
          exact .test hname hargs hne ((hall operand (hargs ▸ List.mem_cons_self) _).mpr rfl)
      · rw [native_unsuited htidy hproper hsuits]
        exact .call hsuits ((heach _).mpr rfl)

/-- An operator with an empty argument and a test with several are put in the place of the call. -/
theorem not_rewritten_native {name : Text} {args : List Item} (htidy : ∀ arg ∈ args, Tidy arg)
    (h : ¬Proper name args) : ¬Rewritten (call name args) (call name args).native := by
  have hproper : ((betweenOperator name).isSome ∧ ∃ left right, arguments args = [left, right] ∧
      ¬(left ≠ [] ∧ right ≠ [])) ∨
      ((nullTest name).isSome ∧ ∃ arg ∈ args, arg.isComma = true) := by
    by_contra hnone
    rw [not_or] at hnone
    refine h ⟨fun hsome left right hargs => ?_, fun hsome arg harg => ?_⟩
    · by_contra hempty
      exact hnone.1 ⟨hsome, left, right, hargs, hempty⟩
    · rw [← Bool.not_eq_true]
      exact fun hcomma => hnone.2 ⟨hsome, arg, harg, hcomma⟩
  intro hout
  rcases hproper with ⟨hsome, left, right, hargs, hempty⟩ | ⟨hsome, arg, harg, hcomma⟩
  · obtain ⟨operator, hname⟩ := Option.isSome_iff_exists.mp hsome
    rw [native_between htidy hname hargs] at hout
    generalize hnative :
      nativeAll left ++ symbol (' ' :: operator ++ [' ']) :: nativeAll right = out at hout
    cases hout with
    | between _ hargs' hleft hright =>
      rw [hargs] at hargs'
      cases hargs'
      exact hempty ⟨hleft, hright⟩
    | test hname' =>
      rw [nullTest_of_between hname] at hname'
      cases hname'
    | call =>
      have hmem : symbol (' ' :: operator ++ [' ']) ∈ nativeAll left ++
          symbol (' ' :: operator ++ [' ']) :: nativeAll right := by simp
      rw [hnative, List.mem_singleton] at hmem
      cases hmem
  · obtain ⟨test, hname⟩ := Option.isSome_iff_exists.mp hsome
    have hfull : ¬args.all isSpace = true := by
      intro hall
      have hspace := List.all_eq_true.mp hall arg harg
      rw [isComma_eq_true.mp hcomma] at hspace
      cases hspace
    rw [native_nullTest htidy hname hfull] at hout
    generalize hnative : trimSpaces (nativeAll args) ++ [symbol (' ' :: test)] = out at hout
    cases hout with
    | between hname' =>
      rw [nullTest_of_between hname'] at hname
      cases hname
    | test _ hargs => exact arguments_ne_singleton ⟨arg, harg, hcomma⟩ _ hargs
    | call =>
      have hmem : symbol (' ' :: test) ∈ trimSpaces (nativeAll args) ++ [symbol (' ' :: test)] := by
        simp
      rw [hnative, List.mem_singleton] at hmem
      cases hmem

/-- An item is changed by the rule wherever all of its calls are proper. A call that is not proper
itself is changed against the rule. -/
theorem native_by_arity (item : Item) :
    (item.Tidy → ∀ out, Rewritten item out ↔ out = item.native) ∧
    ∀ name args, item = call name args → (∀ arg ∈ args, Tidy arg) → ¬Proper name args →
      ¬Rewritten item item.native := by
  refine ⟨fun h out => rewritten_iff_native h out, ?_⟩
  rintro name args rfl htidy h
  exact not_rewritten_native htidy h

/-- `(Contains(T.name, ENDSWITH(T.site,'x')))` -/
def nestedCalls : Item :=
  group [call "Contains" [word "T.name", symbol [','], space [' '],
    call "ENDSWITH" [word "T.site", symbol [','], literal "'x'"]]]

theorem tidy_nestedCalls : nestedCalls.Tidy := by
  have houter : betweenOperator "Contains" = some "CONTAINS" := by decide +kernel
  have hinner : betweenOperator "ENDSWITH" = some "ENDS WITH" := by decide +kernel
  have hsite : Tidy (call "ENDSWITH" [word "T.site", symbol [','], literal "'x'"]) := by
    refine .call (.of_between hinner rfl (List.cons_ne_nil _ _) (List.cons_ne_nil _ _)) ?_
    simp only [List.forall_mem_cons, List.not_mem_nil, false_imp_iff, implies_true, and_true]
    exact ⟨.word _, .symbol _, .literal _⟩
  refine .group (List.forall_mem_singleton.mpr (.call (.of_between houter rfl
    (List.cons_ne_nil _ _) (List.cons_ne_nil _ _)) ?_))
  simp only [List.forall_mem_cons, List.not_mem_nil, false_imp_iff, implies_true, and_true]
  exact ⟨.word _, .symbol _, .space _, hsite⟩

def twoTested : List Item := [word "T.a", symbol [','], word "T.b"]

theorem tidy_twoTested : ∀ arg ∈ twoTested, Tidy arg := by
  simp only [twoTested, List.forall_mem_cons, List.not_mem_nil, false_imp_iff, implies_true,
    and_true]
  exact ⟨.word _, .symbol _, .word _⟩

theorem not_proper_twoTested : ¬Proper "IS_NULL" twoTested := by
  intro h
  have hcomma := h.test (by decide +kernel) (symbol [',']) (by simp [twoTested])
  cases hcomma

theorem native_of_nestedCalls :
    nestedCalls.Tidy ∧ (∀ out, Rewritten nestedCalls out ↔ out = nestedCalls.native) ∧
    renderAll nestedCalls.native = "(T.name CONTAINS T.site ENDS WITH 'x')" ∧
    (∀ arg ∈ twoTested, Tidy arg) ∧ ¬Proper "IS_NULL" twoTested ∧
    ¬Rewritten (call "IS_NULL" twoTested) (call "IS_NULL" twoTested).native :=
  ⟨tidy_nestedCalls, (native_by_arity nestedCalls).1 tidy_nestedCalls, by decide +kernel,
    tidy_twoTested, not_proper_twoTested,
    (native_by_arity _).2 _ _ rfl tidy_twoTested not_proper_twoTested⟩

/-- By the rule `IS_NULL(T.a,T.b)` stays as it is; it becomes `T.a,T.b IS NULL`. -/
theorem test_of_two_is_changed :
    Rewritten (call "IS_NULL" twoTested) [call "IS_NULL" twoTested] ∧
    renderAll (call "IS_NULL" twoTested).native = "T.a,T.b IS NULL" ∧
    ¬Rewritten (call "IS_NULL" twoTested) (call "IS_NULL" twoTested).native := by
  have hbetween : betweenOperator "IS_NULL" = none := by decide +kernel
  have hword : ∀ s, RewrittenAll [word s] [word s] := fun s => .cons (.word s) .nil
  refine ⟨.call ?_ (.cons (hword _) (.cons (hword _) .nil)), by decide +kernel,
    not_rewritten_native tidy_twoTested not_proper_twoTested⟩
  rintro (⟨hsome, -⟩ | ⟨-, operand, hargs, -⟩)
  · rw [hbetween] at hsome
    cases hsome
  · exact arguments_ne_singleton ⟨symbol [','], by simp [twoTested], rfl⟩ _ hargs

end TwinGraph.Item
