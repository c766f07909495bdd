import Mathlib.Data.List.Basic
import TwinGraph.Text.Basic

/-! Conditions as trees of operators. From the loosest to the tightest there are OR, AND, NOT,
comparisons, sums, signs, null tests and the operators on strings. Operands and operators in a row
belong to at most one tree that respects this order. -/
namespace TwinGraph

inductive Operand where
  | name (path : Text)
  | constant (text : Text)
  deriving DecidableEq, Repr

inductive Unary where
  | not
  | sign (s : Text)
  deriving DecidableEq, Repr

inductive Binary where
  | or
  | and
  | compare (s : Text)
  | add (s : Text)
  | between (operator : Text)
  deriving DecidableEq, Repr

/-- A condition. The operators on strings and the null tests are calls in a twin query and stand
between and behind their operands in Cypher. Parentheses are kept. -/
inductive Formula where
  | operand (x : Operand)
  | group (inner : Formula)
  | unary (op : Unary) (f : Formula)
  | binary (op : Binary) (left right : Formula)
  | test (test : Text) (f : Formula)
  | betweenCall (operator : Text) (left right : Formula)
  | testCall (test : Text) (f : Formula)
  deriving DecidableEq, Repr

/-- What stands in a row: operands, with parentheses and calls in one piece, and operators. -/
inductive Lexeme where
  | operand (x : Operand)
  | group (inner : List Lexeme)
  | unary (op : Unary)
  | binary (op : Binary)
  | test (test : Text)
  | betweenCall (operator : Text) (left right : List Lexeme)
  | testCall (test : Text) (operand : List Lexeme)

/-! ### The order of the operators -/

def Unary.level : Unary → Nat
  | not => 2
  | sign _ => 5

def Binary.level : Binary → Nat
  | or => 0
  | and => 1
  | compare _ => 3
  | add _ => 4
  | between _ => 7

theorem Unary.level_le (op : Unary) : op.level ≤ 6 := by cases op <;> simp [level]

theorem Binary.level_lt (op : Binary) (h : op.level < 7) : op.level < 6 := by
  cases op <;> simp_all [level]

def Lexeme.level : Lexeme → Nat
  | unary op => op.level
  | binary op => op.level
  | test _ => 6
  | operand _ | group _ | betweenCall _ _ _ | testCall _ _ => 8

namespace Formula

def level : Formula → Nat
  | unary op _ => op.level
  | binary op _ _ => op.level
  | test _ _ => 6
  | operand _ | group _ | betweenCall _ _ _ | testCall _ _ => 8

def flat : Formula → List Lexeme
  | operand x => [.operand x]
  | group f => [.group f.flat]
  | unary op f => .unary op :: f.flat
  | binary op l r => l.flat ++ .binary op :: r.flat
  | test t f => f.flat ++ [.test t]
  | betweenCall op l r => [.betweenCall op l.flat r.flat]
  | testCall t f => [.testCall t f.flat]

/-- No operator has a looser one below it outside parentheses, and operators of one level group to
the left. -/
def Ordered : Formula → Prop
  | operand _ => True
  | group f => f.Ordered
  | unary op f => op.level ≤ f.level ∧ f.Ordered
  | binary op l r => op.level ≤ l.level ∧ op.level < r.level ∧ l.Ordered ∧ r.Ordered
  | test _ f => 6 ≤ f.level ∧ f.Ordered
  | betweenCall _ l r => l.Ordered ∧ r.Ordered
  | testCall _ f => f.Ordered

instance decidableOrdered : (f : Formula) → Decidable f.Ordered
  | operand _ => isTrue trivial
  | group f => decidableOrdered f
  | unary op f =>
    have := decidableOrdered f
    inferInstanceAs (Decidable (op.level ≤ f.level ∧ f.Ordered))
  | binary op l r =>
    have := decidableOrdered l
    have := decidableOrdered r
    inferInstanceAs (Decidable (op.level ≤ l.level ∧ op.level < r.level ∧ l.Ordered ∧ r.Ordered))
  | test _ f =>
    have := decidableOrdered f
    inferInstanceAs (Decidable (6 ≤ f.level ∧ f.Ordered))
  | betweenCall _ l r =>
    have := decidableOrdered l
    have := decidableOrdered r
    inferInstanceAs (Decidable (l.Ordered ∧ r.Ordered))
  | testCall _ f => decidableOrdered f

theorem Ordered.loosest {f : Formula} (h : f.Ordered) :
    (∀ x ∈ f.flat, f.level ≤ x.level) ∧ ∃ x ∈ f.flat, x.level = f.level := by
  induction f with
  | operand | group | betweenCall | testCall => simp [flat, level, Lexeme.level]
  | unary op f ih =>
    obtain ⟨hlevel, hf⟩ := h
    refine ⟨List.forall_mem_cons.mpr ⟨Nat.le_refl _, fun x hx => ?_⟩, _, List.mem_cons_self, rfl⟩
    exact Nat.le_trans hlevel ((ih hf).1 x hx)
  | binary op l r ihl ihr =>
    obtain ⟨hleft, hright, hl, hr⟩ := h
    refine ⟨?_, .binary op, by simp [flat], rfl⟩
    rw [flat, List.forall_mem_append, List.forall_mem_cons]
    exact ⟨fun x hx => Nat.le_trans hleft ((ihl hl).1 x hx), Nat.le_refl _,
      fun x hx => Nat.le_trans (Nat.le_of_lt hright) ((ihr hr).1 x hx)⟩
  | test t f ih =>
    obtain ⟨hlevel, hf⟩ := h
    refine ⟨?_, .test t, by simp [flat], rfl⟩
    rw [flat, List.forall_mem_append, List.forall_mem_singleton]
    exact ⟨fun x hx => Nat.le_trans hlevel ((ih hf).1 x hx), Nat.le_refl _⟩

theorem level_eq {f g : Formula} (hf : f.Ordered) (hg : g.Ordered) (h : f.flat = g.flat) :
    f.level = g.level := by
  obtain ⟨x, hx, hlevel⟩ := hf.loosest.2
  obtain ⟨y, hy, hlevel'⟩ := hg.loosest.2
  have hle := hg.loosest.1 x (h ▸ hx)
  have hle' := hf.loosest.1 y (h ▸ hy)
  omega

inductive Side where
  | alone
  | front
  | middle
  | back

def sideOf : Nat → Side
  | 2 | 5 => .front
  | 6 => .back
  | 8 => .alone
  | _ => .middle

def side : Formula → Side
  | unary _ _ => .front
  | binary _ _ _ => .middle
  | test _ _ => .back
  | operand _ | group _ | betweenCall _ _ _ | testCall _ _ => .alone

theorem side_eq (f : Formula) : f.side = sideOf f.level := by
  cases f with
  | unary op | binary op => cases op <;> rfl
  | operand | group | test | betweenCall | testCall => rfl

theorem cut_unique {α : Type} {P : α → Prop} {l l' r r' : List α} {x x' : α} (hx : P x)
    (hx' : P x') (hr : ∀ y ∈ r, ¬P y) (hr' : ∀ y ∈ r', ¬P y) (h : l ++ x :: r = l' ++ x' :: r') :
    l = l' ∧ x = x' ∧ r = r' := by
  induction l generalizing l' with
  | nil =>
    cases l' with
    | nil => exact ⟨rfl, List.cons_eq_cons.mp h⟩
    | cons y l' =>
      obtain ⟨rfl, rfl⟩ := List.cons_eq_cons.mp h
      exact absurd hx' (hr x' (by simp))
  | cons z l ih =>
    cases l' with
    | nil =>
      obtain ⟨rfl, rfl⟩ := List.cons_eq_cons.mp h
      exact absurd hx (hr' x (by simp))
    | cons y l' =>
      obtain ⟨rfl, hrest⟩ := List.cons_eq_cons.mp h
      obtain ⟨rfl, hmore⟩ := ih hrest
      exact ⟨rfl, hmore⟩

theorem side_congr {f g : Formula} (hf : f.Ordered) (hg : g.Ordered) (h : f.flat = g.flat) :
    f.side = g.side := by
  rw [side_eq, side_eq, level_eq hf hg h]

/-- Operators and operands in a row come from one tree only. -/
theorem eq_of_flat {f g : Formula} (hf : f.Ordered) (hg : g.Ordered) (h : f.flat = g.flat) :
    f = g := by
  have hside := side_congr hf hg h
  have hlevel := level_eq hf hg h
  cases f with
  | operand x =>
    cases g with
    | operand => simpa [flat] using h
    | group | betweenCall | testCall => simp [flat] at h
    | unary | binary | test => cases hside
  | group f =>
    cases g with
    | group g =>
      have hinner : f.flat = g.flat := by simpa [flat] using h
      rw [eq_of_flat (f := f) (g := g) hf hg hinner]
    | operand | betweenCall | testCall => simp [flat] at h
    | unary | binary | test => cases hside
  | unary op f =>
    cases g with
    | unary op' g =>
      obtain ⟨hop, hrest⟩ := List.cons_eq_cons.mp h
      cases hop
      rw [eq_of_flat hf.2 hg.2 hrest]
    | operand | group | betweenCall | testCall | binary | test => cases hside
  | binary op l r =>
    cases g with
    | binary op' l' r' =>
      obtain ⟨-, hright, hl, hr⟩ := hf
      obtain ⟨-, hright', hl', hr'⟩ := hg
      -- The root is the last of the loosest operators.
      have hafter : ∀ x ∈ r.flat, ¬x.level = op.level := fun x hx hx' => by
        have := hr.loosest.1 x hx
        omega
      have hafter' : ∀ x ∈ r'.flat, ¬x.level = op.level := fun x hx hx' => by
        have := hr'.loosest.1 x hx
        have hsame : op.level = op'.level := hlevel
        omega
      obtain ⟨hleft, hop, hrest⟩ := cut_unique (P := fun x => x.level = op.level) rfl
        hlevel.symm hafter hafter' h
      cases hop
      rw [eq_of_flat hl hl' hleft, eq_of_flat hr hr' hrest]
    | operand | group | betweenCall | testCall | unary | test => cases hside
  | test t f =>
    cases g with
    | test t' g =>
      obtain ⟨hrest, ht⟩ := List.append_inj' h rfl
      cases ht
      rw [eq_of_flat hf.2 hg.2 hrest]
    | operand | group | betweenCall | testCall | unary | binary => cases hside
  | betweenCall op l r =>
    cases g with
    | betweenCall op' l' r' =>
      obtain ⟨rfl, hleft, hright⟩ : op = op' ∧ l.flat = l'.flat ∧ r.flat = r'.flat := by
        simpa [flat] using h
      rw [eq_of_flat hf.1 hg.1 hleft, eq_of_flat hf.2 hg.2 hright]
    | operand | group | testCall => simp [flat] at h
    | unary | binary | test => cases hside
  | testCall t f =>
    cases g with
    | testCall t' g =>
      obtain ⟨rfl, hinner⟩ : t = t' ∧ f.flat = g.flat := by simpa [flat] using h
      rw [eq_of_flat (f := f) (g := g) hf hg hinner]
    | operand | group | betweenCall => simp [flat] at h
    | unary | binary | test => cases hside

/-! ### Calls as operators -/

section Native

variable (name : Operand → Operand)

/-- Each call as the operator it stands for, between or behind what its arguments become. -/
def native : Formula → Formula
  | operand x => operand (name x)
  | group g => group g.native
  | unary op g => unary op g.native
  | binary op l r => binary op l.native r.native
  | test t g => test t g.native
  | betweenCall op l r => binary (.between op) l.native r.native
  | testCall t g => test t g.native

def OfCalls : Formula → Prop
  | operand _ => True
  | group g => g.OfCalls
  | unary _ g => g.OfCalls
  | binary op l r => op.level < 7 ∧ l.OfCalls ∧ r.OfCalls
  | test _ _ => False
  | betweenCall _ l r => l.OfCalls ∧ r.OfCalls
  | testCall _ g => g.OfCalls

def nativeLevel : Formula → Nat
  | betweenCall _ _ _ => 7
  | testCall _ _ => 6
  | g => g.level

/-- No argument has a looser operator at its root than the call it belongs to, and what stands
behind an operator on strings is no such operator itself. -/
def Fits : Formula → Prop
  | operand _ => True
  | group g => g.Fits
  | unary _ g => g.Fits
  | binary _ l r => l.Fits ∧ r.Fits
  | test _ g => g.Fits
  | betweenCall _ l r => 7 ≤ l.nativeLevel ∧ 7 < r.nativeLevel ∧ l.Fits ∧ r.Fits
  | testCall _ g => 6 ≤ g.nativeLevel ∧ g.Fits

instance decidableFits : (g : Formula) → Decidable g.Fits
  | operand _ => isTrue trivial
  | group g => decidableFits g
  | unary _ g => decidableFits g
  | binary _ l r =>
    have := decidableFits l
    have := decidableFits r
    inferInstanceAs (Decidable (l.Fits ∧ r.Fits))
  | test _ g => decidableFits g
  | betweenCall _ l r =>
    have := decidableFits l
    have := decidableFits r
    inferInstanceAs (Decidable (7 ≤ l.nativeLevel ∧ 7 < r.nativeLevel ∧ l.Fits ∧ r.Fits))
  | testCall _ g =>
    have := decidableFits g
    inferInstanceAs (Decidable (6 ≤ g.nativeLevel ∧ g.Fits))

theorem level_native (g : Formula) : (g.native name).level = g.nativeLevel := by cases g <;> rfl

/-- Up to the null tests a call is as tight as its operator. -/
theorem le_nativeLevel {n : Nat} (hn : n ≤ 6) (g : Formula) : n ≤ g.nativeLevel ↔ n ≤ g.level := by
  cases g with
  | betweenCall | testCall =>
    simp only [nativeLevel, level]
    omega
  | operand | group | unary | binary | test => rfl

/-- In a tree of calls only the arguments of the calls can come out of order. -/
theorem ordered_native_iff {g : Formula} (hordered : g.Ordered) (hcalls : g.OfCalls) :
    (g.native name).Ordered ↔ g.Fits := by
  induction g with
  | operand x => simp [native, Ordered, Fits]
  | group g ih => exact ih hordered hcalls
  | unary op g ih =>
    obtain ⟨hlevel, hordered⟩ := hordered
    simp only [native, Ordered, Fits, ih hordered hcalls, level_native,
      le_nativeLevel (Unary.level_le op)]
    exact and_iff_right hlevel
  | binary op l r ihl ihr =>
    obtain ⟨hleft, hright, hl, hr⟩ := hordered
    obtain ⟨hop, hl', hr'⟩ := hcalls
    have hlt := Binary.level_lt op hop
    simp only [native, Ordered, Fits, ihl hl hl', ihr hr hr', level_native,
      le_nativeLevel (Nat.le_of_lt hlt), ← Nat.succ_le_iff, le_nativeLevel hlt]
    exact ⟨fun h => h.2.2, fun h => ⟨hleft, hright, h⟩⟩
  | test t g ih => exact hcalls.elim
  | betweenCall op l r ihl ihr =>
    simp only [native, Ordered, Fits, ihl hordered.1 hcalls.1, ihr hordered.2 hcalls.2,
      level_native, Binary.level]
  | testCall t g ih => simp only [native, Ordered, Fits, ih hordered hcalls, level_native]

end Native
end Formula

/-! ### Operators in a row -/

namespace Lexeme

inductive OfCalls : Lexeme → Prop
  | operand (x) : OfCalls (operand x)
  | group {inner} : (∀ x ∈ inner, OfCalls x) → OfCalls (group inner)
  | unary (op) : OfCalls (unary op)
  | binary {op} : op.level < 7 → OfCalls (binary op)
  | betweenCall {op left right} : (∀ x ∈ left, OfCalls x) → (∀ x ∈ right, OfCalls x) →
      OfCalls (betweenCall op left right)
  | testCall {t row} : (∀ x ∈ row, OfCalls x) → OfCalls (testCall t row)

variable (name : Operand → Operand)

mutual

def inlined : Lexeme → List Lexeme
  | operand x => [operand (name x)]
  | group inner => [group (inlinedAll inner)]
  | unary op => [unary op]
  | binary op => [binary op]
  | test t => [test t]
  | betweenCall op left right => inlinedAll left ++ binary (.between op) :: inlinedAll right
  | testCall t row => inlinedAll row ++ [test t]

def inlinedAll : List Lexeme → List Lexeme
  | [] => []
  | x :: row => x.inlined ++ inlinedAll row

end

theorem inlinedAll_append (row row' : List Lexeme) :
    inlinedAll name (row ++ row') = inlinedAll name row ++ inlinedAll name row' := by
  induction row with
  | nil => rfl
  | cons x row ih => rw [List.cons_append, inlinedAll, inlinedAll, ih, List.append_assoc]

theorem inlinedAll_singleton (x : Lexeme) : inlinedAll name [x] = x.inlined name := by
  rw [inlinedAll, inlinedAll, List.append_nil]

end Lexeme

theorem Formula.flat_native (name : Operand → Operand) (g : Formula) :
    (g.native name).flat = Lexeme.inlinedAll name g.flat := by
  induction g with
  | operand x => simp [native, flat, Lexeme.inlinedAll, Lexeme.inlined]
  | group g ih => simp [native, flat, Lexeme.inlinedAll, Lexeme.inlined, ih]
  | unary op g ih => simp [native, flat, Lexeme.inlinedAll, Lexeme.inlined, ih]
  | binary op l r ihl ihr =>
    simp [native, flat, Lexeme.inlinedAll, Lexeme.inlined, Lexeme.inlinedAll_append, ihl, ihr]
  | test t g ih =>
    simp [native, flat, Lexeme.inlinedAll, Lexeme.inlined, Lexeme.inlinedAll_append, ih]
  | betweenCall op l r ihl ihr => simp [native, flat, Lexeme.inlinedAll, Lexeme.inlined, ihl, ihr]
  | testCall t g ih => simp [native, flat, Lexeme.inlinedAll, Lexeme.inlined, ih]

theorem Formula.ofCalls_of_flat {g : Formula} (h : ∀ x ∈ g.flat, x.OfCalls) : g.OfCalls := by
  induction g with
  | operand x => trivial
  | group g ih =>
    cases List.forall_mem_singleton.mp h with
    | group hinner => exact ih hinner
  | unary op g ih => exact ih (List.forall_mem_cons.mp h).2
  | binary op l r ihl ihr =>
    rw [flat, List.forall_mem_append, List.forall_mem_cons] at h
    obtain ⟨hl, hop, hr⟩ := h
    cases hop with
    | binary hop => exact ⟨hop, ihl hl, ihr hr⟩
  | test t g ih => cases h (.test t) (by simp [flat])
  | betweenCall op l r ihl ihr =>
    cases List.forall_mem_singleton.mp h with
    | betweenCall hl hr => exact ⟨ihl hl, ihr hr⟩
  | testCall t g ih =>
    cases List.forall_mem_singleton.mp h with
    | testCall hg => exact ih hg

end TwinGraph
