import TwinGraph.Proofs.Query.Accesses
import TwinGraph.Proofs.Query.Joining
import TwinGraph.Proofs.Query.Precedence

/-! Reading the condition of a Cypher query. The tokens are read from left to right: the place
behind the tokens so far tells an operator from an operand, and an open parenthesis puts aside what
stands in front of it. -/
namespace TwinGraph

open Query Item

/-- What has been read last. An operand is expected at first and behind an operator. -/
inductive Place where
  | expecting
  | path
  | bracket
  | key
  | point
  | behind
  | is
  | isNot
  | starts
  | ends
  deriving DecidableEq, Repr

/-- The operands and operators since the innermost open parenthesis, and what stands in front of
each open one, always the last one first. -/
structure Reading where
  place : Place
  found : List Lexeme
  outer : List (List Lexeme)

def constants : List Text := ["NULL", "TRUE", "FALSE"]

def comparisons : List Text := ["=", "!=", "<>", "<", "<=", ">", ">="]

def sums : List Text := ["+", "-"]

def connective? (w : Text) : Option Binary :=
  if w.sameLetters "AND" then some .and else if w.sameLetters "OR" then some .or else none

def Place.isWhole : Place → Bool
  | path | behind => true
  | _ => false

namespace Reading

def start : Reading := ⟨.expecting, [], []⟩

def push (r : Reading) (place : Place) (x : Lexeme) : Reading := ⟨place, x :: r.found, r.outer⟩

def move (r : Reading) (place : Place) : Reading := ⟨place, r.found, r.outer⟩

def extend (r : Reading) (place : Place) (s : Text) : Option Reading :=
  match r.found with
  | .operand (.name w) :: found => some ⟨place, .operand (.name (w ++ s)) :: found, r.outer⟩
  | _ => none

def operand (r : Reading) (w : Text) : Option Reading :=
  if w.sameLetters "NOT" then some (r.push .expecting (.unary .not))
  else if constants.any (Text.sameLetters w) then some (r.push .behind (.operand (.constant w)))
  else if operatorWords.any (Text.sameLetters w) then none
  else some (r.push .path (.operand (.name w)))

def operator (r : Reading) (w : Text) : Option Reading :=
  match connective? w with
  | some op => some (r.push .expecting (.binary op))
  | none =>
    if w.sameLetters "CONTAINS" then some (r.push .expecting (.binary (.between "CONTAINS")))
    else if w.sameLetters "STARTS" then some (r.move .starts)
    else if w.sameLetters "ENDS" then some (r.move .ends)
    else if w.sameLetters "IS" then some (r.move .is)
    else none

def word (r : Reading) (w : Text) : Option Reading :=
  match r.place with
  | .expecting => r.operand w
  | .path | .behind => r.operator w
  | .point => r.extend .path w
  | .starts =>
    if w.sameLetters "WITH" then some (r.push .expecting (.binary (.between "STARTS WITH")))
    else none
  | .ends =>
    if w.sameLetters "WITH" then some (r.push .expecting (.binary (.between "ENDS WITH")))
    else none
  | .is =>
    if w.sameLetters "NULL" then some (r.push .behind (.test "IS NULL"))
    else if w.sameLetters "NOT" then some (r.move .isNot)
    else none
  | .isNot =>
    if w.sameLetters "NULL" then some (r.push .behind (.test "IS NOT NULL")) else none
  | .bracket | .key => none

def literal (r : Reading) (s : Text) : Option Reading :=
  match r.place with
  | .expecting => some (r.push .behind (.operand (.constant s)))
  | .bracket => r.extend .key s
  | _ => none

def mark (r : Reading) (s : Text) : Option Reading :=
  if s ∈ comparisons then some (r.push .expecting (.binary (.compare s)))
  else if s ∈ sums then some (r.push .expecting (.binary (.add s)))
  else none

def symbol (r : Reading) (s : Text) : Option Reading :=
  match r.place with
  | .expecting => if s ∈ sums then some (r.push .expecting (.unary (.sign s))) else none
  | .path =>
    if s = ['['] then r.extend .bracket s
    else if s = ['.'] then r.extend .point s
    else r.mark s
  | .behind => r.mark s
  | .key => if s = [']'] then r.extend .path s else none
  | _ => none

def opening (r : Reading) : Option Reading :=
  match r.place with
  | .expecting => some ⟨.expecting, [], r.found :: r.outer⟩
  | _ => none

def closing (r : Reading) : Option Reading :=
  match r.outer with
  | before :: outer =>
    if r.place.isWhole then some ⟨.behind, .group r.found.reverse :: before, outer⟩ else none
  | [] => none

def step (r : Reading) : Token → Option Reading
  | .word w => r.word w
  | .literal s => r.literal s
  | .space _ => some r
  | .symbol s => r.symbol s
  | .opening => r.opening
  | .closing => r.closing

def result (r : Reading) : Option (List Lexeme) :=
  if r.place.isWhole && r.outer.isEmpty then some r.found.reverse else none

/-- The tokens lead from one reading to another. -/
def Runs (r : Reading) (ts : List Token) (r' : Reading) : Prop := ts.foldlM step r = some r'

theorem Runs.nil (r : Reading) : r.Runs [] r := rfl

theorem Runs.append {r r' r'' : Reading} {ts us : List Token} (h : r.Runs ts r')
    (h' : r'.Runs us r'') : r.Runs (ts ++ us) r'' := by
  rw [Runs, List.foldlM_append, h]
  exact h'

theorem Runs.cons {r r' r'' : Reading} {t : Token} {ts : List Token} (h : r.step t = some r')
    (h' : r'.Runs ts r'') : r.Runs (t :: ts) r'' := by
  rw [Runs, List.foldlM_cons, h]
  exact h'

theorem Runs.single {r r' : Reading} {t : Token} (h : r.step t = some r') : r.Runs [t] r' :=
  .cons h (.nil r')

end Reading

def cypherRow (s : Text) : Option (List Lexeme) :=
  ((Token.ofText s).foldlM Reading.step Reading.start).bind Reading.result

/-- The text is a condition of Cypher, and this is its tree. -/
def Formula.Reads (s : Text) (f : Formula) : Prop := cypherRow s = some f.flat ∧ f.Ordered

theorem Formula.Reads.unique {s : Text} {f g : Formula} (hf : f.Reads s) (hg : g.Reads s) :
    f = g :=
  eq_of_flat hf.2 hg.2 (Option.some.inj (hf.1.symm.trans hg.1))

/-! ### Accesses -/

def Step.ofSegment : Text → Step
  | '$' :: s => bracketed ('\'' :: '$' :: s ++ ['\''])
  | s => dotted s

theorem segment_cases (s : Text) :
    (∃ name, s = '$' :: name) ∨ (Step.ofSegment s = .dotted s ∧ pathStep s = '.' :: s) := by
  cases s with
  | nil => exact Or.inr ⟨rfl, rfl⟩
  | cons c s =>
    by_cases hc : c = '$'
    · exact Or.inl ⟨s, by rw [hc]⟩
    · refine Or.inr ⟨?_, ?_⟩
      · rw [Step.ofSegment]
        rintro name heq
        exact hc (List.cons_eq_cons.mp heq).1
      · rw [pathStep]
        rintro name heq
        exact hc (List.cons_eq_cons.mp heq).1

namespace Token

theorem legal_bracketed {s : Text} (hs : IsSegment ('$' :: s)) :
    (literal ('\'' :: '$' :: s ++ ['\''])).Legal := by
  obtain ⟨dollars, name, heq, hdollars, hname⟩ := hs
  have hinner : ∀ c ∈ '$' :: s, c ≠ '\\' ∧ c ≠ '\'' := by
    rw [heq, List.forall_mem_append]
    refine ⟨fun c hc => by rw [hdollars c hc]; decide, fun c hc => ?_⟩
    have hchar := isNameChar_of_mem hname c hc
    constructor <;> rintro rfl <;> exact absurd hchar (by decide)
  exact legal_string (by decide) (closeQuote_inner (by decide) hinner)

theorem legal_mark {c : Char} (hquote : isQuote c = false) (hname : isNameChar c = false)
    (hdollar : (c == '$') = false) (hgap : isGap c = false)
    (hlonger : c ∉ ['<', '>', '!', '(', ')']) : (symbol [c]).Legal := by
  intro rest _
  rw [text, List.singleton_append, scan_operator hquote hname hdollar hgap]
  simp only [List.mem_cons, List.not_mem_nil, or_false, not_or] at hlonger
  unfold scanOperator
  split <;> simp_all

theorem legal_left : (symbol ['[']).Legal :=
  legal_mark (by decide) (by decide) (by decide) (by decide) (by decide)

theorem legal_right : (symbol [']']).Legal :=
  legal_mark (by decide) (by decide) (by decide) (by decide) (by decide)

theorem legal_point : (symbol ['.']).Legal :=
  legal_mark (by decide) (by decide) (by decide) (by decide) (by decide)

/-- A key in brackets, in front of what follows. -/
theorem writes_bracketed {name : Text} (h : IsSegment ('$' :: name)) {ts : List Token} {s : Text}
    (hs : Writes ts s) :
    Writes (symbol ['['] :: literal ('\'' :: '$' :: name ++ ['\'']) :: symbol [']'] :: ts)
      (pathStep ('$' :: name) ++ s) := by
  have hright : Writes (symbol [']'] :: ts) (']' :: s) := hs.cons legal_right fun _ _ => rfl
  have hkey := hright.cons (legal_bracketed h) fun _ _ => rfl
  have hleft := hkey.cons legal_left fun _ _ => rfl
  simpa [text, pathStep, Text.joined] using hleft

theorem writes_itemsFrom {names : List Text} (hnames : ∀ s ∈ names, IsSegment s) (w : Option Text)
    (hw : ∀ p ∈ w, ∀ piece ∈ Text.pieces (· == '.') p, IsSegment piece) :
    Writes (tokensAll (Access.itemsFrom w (names.map Step.ofSegment)))
      (w.getD [] ++ (names.map pathStep).flatten) := by
  induction names generalizing w with
  | nil =>
    cases w with
    | none => exact writes_nil
    | some p =>
      have hword := (legal_word (hw p rfl)).writes
      simpa [Access.itemsFrom, tokensAll, tokens, text] using hword
  | cons s names ih =>
    rw [List.forall_mem_cons] at hnames
    rcases segment_cases s with ⟨name, rfl⟩ | ⟨hstep, htext⟩
    · have hrest := writes_bracketed hnames.1 (ih hnames.2 none (by simp))
      cases w with
      | none =>
        simpa [Step.ofSegment, Access.itemsFrom, tokensAll, tokens] using hrest
      | some p =>
        have hword := hrest.cons (legal_word (hw p rfl)) fun c hc => by
          cases hc
          rfl
        simpa [Step.ofSegment, Access.itemsFrom, tokensAll, tokens, text] using hword
    · have hpieces := pieces_plain hnames.1.not_point
      rw [List.map_cons, List.map_cons, hstep, List.flatten_cons, htext]
      cases w with
      | none =>
        have hname := ih hnames.2 (some s) (by
          rintro p ⟨⟩
          rw [hpieces, List.forall_mem_singleton]
          exact hnames.1)
        have hpoint := hname.cons legal_point fun _ _ => rfl
        simpa [Access.itemsFrom, tokensAll, tokens, text] using hpoint
      | some p =>
        have hlonger := ih hnames.2 (some (p ++ '.' :: s)) (by
          rintro q ⟨⟩
          rw [pieces_append (by decide), hpieces, List.forall_mem_append, List.forall_mem_singleton]
          exact ⟨hw p rfl, hnames.1⟩)
        simpa [Access.itemsFrom] using hlonger

end Token

namespace Reading

theorem runs_bracketed (outer : List (List Lexeme)) (found : List Lexeme) (p name : Text) :
    Runs ⟨.path, .operand (.name p) :: found, outer⟩
      [.symbol ['['], .literal ('\'' :: '$' :: name ++ ['\'']), .symbol [']']]
      ⟨.path, .operand (.name (p ++ pathStep ('$' :: name))) :: found, outer⟩ := by
  have htext : p ++ pathStep ('$' :: name) =
      p ++ ['['] ++ ('\'' :: '$' :: name ++ ['\'']) ++ [']'] := by
    simp [pathStep, Text.joined]
  rw [htext]
  exact .cons rfl (.cons rfl (.single rfl))

/-- The tokens of a path are read as one name: from a bracket on they extend the name before it, and
before the first bracket there is one word, which is read as it can be. -/
theorem runs_itemsFrom (names : List Text) (outer : List (List Lexeme)) (found : List Lexeme)
    (p : Text) :
    Runs ⟨.path, .operand (.name p) :: found, outer⟩
      (tokensAll (Access.itemsFrom none (names.map Step.ofSegment)))
      ⟨.path, .operand (.name (p ++ (names.map pathStep).flatten)) :: found, outer⟩ ∧
    ∀ (r : Reading) (w : Text),
      (∀ more : List Text, r.word (w ++ (more.map ('.' :: ·)).flatten) = some
        ⟨.path, .operand (.name (p ++ (w ++ (more.map ('.' :: ·)).flatten))) :: found, outer⟩) →
      Runs r (tokensAll (Access.itemsFrom (some w) (names.map Step.ofSegment)))
        ⟨.path, .operand (.name (p ++ (w ++ (names.map pathStep).flatten))) :: found, outer⟩ := by
  induction names generalizing p with
  | nil =>
    refine ⟨?_, fun r w hword => ?_⟩
    · simpa [Access.itemsFrom, tokensAll] using Runs.nil _
    · have hstep : r.step (.word w) = some ⟨.path, .operand (.name (p ++ w)) :: found, outer⟩ := by
        simpa [step] using hword []
      simpa [Access.itemsFrom, tokensAll, tokens] using Runs.single hstep
  | cons s names ih =>
    rcases segment_cases s with ⟨name, rfl⟩ | ⟨hstep, htext⟩
    · have hbracketed : ∀ p, Runs ⟨.path, .operand (.name p) :: found, outer⟩
          (tokensAll (Access.itemsFrom none ((('$' :: name) :: names).map Step.ofSegment)))
          ⟨.path, .operand (.name (p ++ (pathStep ('$' :: name) ++
            (names.map pathStep).flatten))) :: found, outer⟩ := fun p => by
        have hruns := (runs_bracketed outer found p name).append
          (ih (p ++ pathStep ('$' :: name))).1
        rw [List.append_assoc] at hruns
        simpa [Step.ofSegment, Access.itemsFrom, tokensAll, tokens] using hruns
      refine ⟨hbracketed p, fun r w hword => ?_⟩
      have hstep : r.step (.word w) = some ⟨.path, .operand (.name (p ++ w)) :: found, outer⟩ := by
        simpa [step] using hword []
      have hruns := Runs.cons hstep (hbracketed (p ++ w))
      rw [List.append_assoc] at hruns
      simpa [Step.ofSegment, Access.itemsFrom, tokensAll, tokens] using hruns
    · rw [List.map_cons, List.map_cons, hstep, List.flatten_cons, htext]
      refine ⟨?_, fun r w hword => ?_⟩
      · have hname := (ih (p ++ ['.'])).2
          ⟨.point, .operand (.name (p ++ ['.'])) :: found, outer⟩ s fun _ => rfl
        have hpoint := Runs.cons (r := ⟨.path, .operand (.name p) :: found, outer⟩)
          (t := .symbol ['.']) rfl hname
        simpa [Access.itemsFrom, tokensAll, tokens] using hpoint
      · have hlonger := (ih p).2 r (w ++ '.' :: s) fun more => by
          simpa using hword (s :: more)
        simpa [Access.itemsFrom] using hlonger

theorem operand_name {w : Text} (h : operatorWords.any (Text.sameLetters w) = false)
    (r : Reading) : r.operand w = some (r.push .path (.operand (.name w))) := by
  have hplain : ∀ keyword ∈ operatorWords, ¬w.sameLetters keyword = true := by
    rwa [List.any_eq_false] at h
  have hsubset : ∀ keyword ∈ constants, keyword ∈ operatorWords := by decide
  have hconstants : constants.any (Text.sameLetters w) = false := by
    rw [List.any_eq_false]
    exact fun keyword hkeyword => hplain keyword (hsubset keyword hkeyword)
  rw [operand, if_neg (hplain "NOT" (by decide)), if_neg (by simp [hconstants]),
    if_neg (by simp [h])]

end Reading

/-- The token ends in front of everything but letters and points. -/
def Token.Firm (t : Token) : Prop :=
  ∀ c, isNameChar c = false → c ≠ '.' → t.endsBefore c = true

theorem Token.firm_word (w : Text) : (word w).Firm := fun c hname hpoint => by
  simp [endsBefore, hname, hpoint]

theorem Token.not_continuesNumber {c : Char} (hname : isNameChar c = false) (hpoint : c ≠ '.') :
    continuesNumber c = false := by
  refine Bool.eq_false_iff.mpr fun hcontinues => ?_
  simp only [continuesNumber, Bool.or_eq_true, beq_iff_eq, hpoint, or_false] at hcontinues
  rcases hcontinues with (hdigit | rfl) | rfl
  · simp [isNameChar, Char.isAlphanum, hdigit] at hname
  · cases hname
  · cases hname

theorem Token.firm_literal (s : Text) : (literal s).Firm := fun c hname hpoint => by
  simp [endsBefore, not_continuesNumber hname hpoint]

theorem firm_itemsFrom (w : Option Text) (steps : List Step) :
    ∀ t ∈ tokensAll (Access.itemsFrom w steps), t.Firm := by
  have hsymbol : ∀ s ∈ [['['], [']'], ['.']], (Token.symbol s).Firm := by
    simp only [List.forall_mem_cons, List.not_mem_nil, false_imp_iff, implies_true, and_true]
    exact ⟨fun _ _ _ => rfl, fun _ _ _ => rfl, fun _ _ _ => rfl⟩
  fun_induction Access.itemsFrom w steps <;>
    simp_all [tokensAll, tokens, Token.firm_word, Token.firm_literal]

theorem not_operator_append {w : Text} (h : operatorWords.any (Text.sameLetters w) = false)
    (more : List Text) :
    operatorWords.any (Text.sameLetters (w ++ (more.map ('.' :: ·)).flatten)) = false := by
  cases more with
  | nil => simpa using h
  | cons s more =>
    rw [List.any_eq_false]
    intro keyword hmem hsame
    have hall : ∀ keyword ∈ operatorWords, IsKeyword keyword := by decide
    have hpoint := isNameChar_of_sameLetters (hall keyword hmem) hsame '.' (by simp)
    cases hpoint

/-- A name in scope is a first name, which is no operator, and steps behind it. -/
theorem exists_head {var : Option Text} (hvar : ∀ v ∈ var, isIdentifier v = true)
    (hfree : ∀ v ∈ var, operatorWords.any (Text.sameLetters v) = false) {w : Text}
    (hw : ∀ piece ∈ w.pieces (· == '.'), IsSegment piece)
    (hfirst : ∀ s ∈ (w.pieces (· == '.')).head?, operatorWords.any (Text.sameLetters s) = false) :
    ∃ (head : Text) (names : List Text), IsSegment head ∧ (∀ s ∈ names, IsSegment s) ∧
      operatorWords.any (Text.sameLetters head) = false ∧
      wordText var w = head ++ (names.map pathStep).flatten := by
  cases var with
  | none =>
    obtain ⟨head, names, hpieces⟩ := List.exists_cons_of_ne_nil (Text.pieces_ne_nil (· == '.') w)
    rw [hpieces, List.forall_mem_cons] at hw
    rw [hpieces] at hfirst
    refine ⟨head, names, hw.1, hw.2, hfirst head rfl, ?_⟩
    rw [wordText, bracketPath, hpieces]
  | some v =>
    have hv : IsSegment v := ⟨[], v, rfl, by simp, hvar v rfl⟩
    refine ⟨v, w.pieces (· == '.'), hv, hw, hfree v rfl, ?_⟩
    rw [wordText, bracketPath, pieces_append (by decide), pieces_plain hv.not_point]
    rfl

theorem runs_name {head : Text} (hhead : IsSegment head)
    (hplain : operatorWords.any (Text.sameLetters head) = false) {names : List Text}
    (hnames : ∀ s ∈ names, IsSegment s) :
    ∃ ts, Token.Writes ts (head ++ (names.map pathStep).flatten) ∧ (∀ t ∈ ts, t.Firm) ∧
      ∀ found outer, Reading.Runs ⟨.expecting, found, outer⟩ ts
        ⟨.path, .operand (.name (head ++ (names.map pathStep).flatten)) :: found, outer⟩ := by
  refine ⟨tokensAll (Access.itemsFrom (some head) (names.map Step.ofSegment)), ?_,
    firm_itemsFrom _ _, fun found outer => ?_⟩
  · refine Token.writes_itemsFrom hnames (some head) ?_
    rintro _ ⟨⟩
    rw [pieces_plain hhead.not_point, List.forall_mem_singleton]
    exact hhead
  · exact (Reading.runs_itemsFrom names outer found []).2 ⟨.expecting, found, outer⟩ head
      fun more => Reading.operand_name (not_operator_append hplain more) _

/-! ### Operators in words -/

def spaced (words : List Text) : List Token := words.flatMap fun w => [.space [' '], .word w]

theorem Token.legal_gap : (Token.space [' ']).Legal := legal_space (by decide) (by decide)

theorem Token.writes_spaced (words : List Text) (hwords : ∀ w ∈ words, isIdentifier w = true)
    {ts : List Token} {s : Text} (hs : Writes ts s)
    (hends : s.head?.any (fun c => isNameChar c || c == '.') = false) :
    Writes (spaced words ++ ts) ((words.map (' ' :: ·)).flatten ++ s) := by
  induction words with
  | nil => exact hs
  | cons w words ih =>
    rw [List.forall_mem_cons] at hwords
    obtain ⟨c, cs, rfl, hc, -⟩ := isIdentifier_eq_true.mp hwords.1
    have hsegment : IsSegment (c :: cs) := ⟨[], _, rfl, by simp, hwords.1⟩
    have hnext : ((words.map (' ' :: ·)).flatten ++ s).head?.any
        (fun c => isNameChar c || c == '.') = false := by
      cases words with
      | nil => exact hends
      | cons => rfl
    have hword : Writes (.word (c :: cs) :: (spaced words ++ ts))
        (c :: cs ++ ((words.map (' ' :: ·)).flatten ++ s)) := by
      refine (ih hwords.2).cons (legal_word ?_) ?_
      · rw [pieces_plain hsegment.not_point, List.forall_mem_singleton]
        exact hsegment
      · rwa [clear_iff (fun c => isNameChar c || c == '.') fun c => by simp [endsBefore, bne]]
    have hgap := hword.cons legal_gap fun d hd => by
      cases hd
      simp [endsBefore, not_isGap_of_isNameChar (isNameChar_of_isNameStart hc)]
    simpa [spaced, text] using hgap

namespace Reading

theorem runs_between {name operator : Text} (h : betweenOperator name = some operator) :
    ∃ ts, Token.Writes (ts ++ [.space [' ']]) (' ' :: operator ++ [' ']) ∧
      ∀ place, place.isWhole = true → ∀ found outer,
        Runs ⟨place, found, outer⟩ (ts ++ [.space [' ']])
          ⟨.expecting, .binary (.between operator) :: found, outer⟩ := by
  have hgap : Token.Writes [.space [' ']] [' '] := Token.legal_gap.writes
  rcases betweenOperator_eq_some h with ⟨-, rfl⟩ | ⟨-, rfl⟩ | ⟨-, rfl⟩
  · refine ⟨spaced ["STARTS", "WITH"], Token.writes_spaced _ (by decide) hgap (by decide), ?_⟩
    rintro (_ | _) ⟨⟩ found outer <;> exact rfl
  · refine ⟨spaced ["ENDS", "WITH"], Token.writes_spaced _ (by decide) hgap (by decide), ?_⟩
    rintro (_ | _) ⟨⟩ found outer <;> exact rfl
  · refine ⟨spaced ["CONTAINS"], Token.writes_spaced _ (by decide) hgap (by decide), ?_⟩
    rintro (_ | _) ⟨⟩ found outer <;> exact rfl

theorem runs_nullTest {name test : Text} (h : nullTest name = some test) :
    ∃ ts w, Token.Writes (ts ++ [.word w]) (' ' :: test) ∧
      ∀ place, place.isWhole = true → ∀ found outer,
        Runs ⟨place, found, outer⟩ (ts ++ [.word w]) ⟨.behind, .test test :: found, outer⟩ := by
  rcases nullTest_eq_some h with ⟨-, rfl⟩ | ⟨-, rfl⟩
  · refine ⟨spaced ["IS"] ++ [.space [' ']], "NULL".toList,
      Token.writes_spaced ["IS", "NULL"] (by decide) Token.writes_nil rfl, ?_⟩
    rintro (_ | _) ⟨⟩ found outer <;> exact rfl
  · refine ⟨spaced ["IS", "NOT"] ++ [.space [' ']], "NULL".toList,
      Token.writes_spaced ["IS", "NOT", "NULL"] (by decide) Token.writes_nil rfl, ?_⟩
    rintro (_ | _) ⟨⟩ found outer <;> exact rfl

end Reading

end TwinGraph
