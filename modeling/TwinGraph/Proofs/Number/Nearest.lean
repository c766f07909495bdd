import Mathlib.Algebra.Order.Field.Basic
import Mathlib.Data.Rat.Cast.Order
import Mathlib.Tactic.FieldSimp
import Mathlib.Tactic.Ring
import TwinGraph.Number.Binary64

/-! Reading the nearest floating-point number. It depends on the value of a quotient only, and the
value of a floating-point number is read as that number. -/
namespace TwinGraph.Binary64

def Within (value : ℚ) (exponent : Int) : Prop := value < 2 ^ (53 + exponent)

theorem Within.mono {value : ℚ} {e f : Int} (h : Within value e) (hef : e ≤ f) : Within value f := by
  have hpow : (2 : ℚ) ^ (53 + e) ≤ 2 ^ (53 + f) :=
    zpow_le_zpow_right₀ (by norm_num) (Int.add_le_add_left hef 53)
  exact lt_of_lt_of_le h hpow

/-- The least exponent, not below the smallest one, that keeps the value within 53 bits. -/
structure LeastUnit (value : ℚ) (exponent : Int) : Prop where
  smallest : -1074 ≤ exponent
  within : Within value exponent
  least : exponent = -1074 ∨ ¬ Within value (exponent - 1)

theorem LeastUnit.unique {value : ℚ} {e f : Int} (he : LeastUnit value e) (hf : LeastUnit value f) :
    e = f := by
  have hle : ∀ {a b : Int}, LeastUnit value a → LeastUnit value b → a ≤ b := by
    intro a b ha hb
    by_contra hlt
    rcases ha.least with h | h
    · have := hb.smallest
      omega
    · exact h (hb.within.mono (by omega))
  exact le_antisymm (hle he hf) (hle hf he)

theorem inUnits_pos (num : Nat) {den : Nat} (hden : 0 < den) (e : Int) : 0 < (inUnits num den e).2 := by
  unfold inUnits
  split
  · exact Nat.mul_pos hden (Nat.pow_pos (by decide))
  · exact hden

theorem inUnits_value (num : Nat) {den : Nat} (hden : 0 < den) (e : Int) :
    ((inUnits num den e).1 : ℚ) / (inUnits num den e).2 = num / den / 2 ^ e := by
  have hden' : (den : ℚ) ≠ 0 := by exact_mod_cast hden.ne'
  unfold inUnits
  split
  · next he =>
    obtain ⟨k, rfl⟩ := Int.eq_ofNat_of_zero_le he
    push_cast
    simp only [Int.toNat_natCast, zpow_natCast, Nat.pow_eq]
    push_cast
    field_simp
  · next he =>
    obtain ⟨k, rfl⟩ : ∃ k : Nat, e = -k := ⟨(-e).toNat, by omega⟩
    simp only [neg_neg, Int.toNat_natCast, zpow_neg, zpow_natCast, Nat.pow_eq]
    push_cast
    field_simp

theorem inUnits_mul {num den k : Nat} (e : Int) :
    inUnits (num * k) (den * k) e = ((inUnits num den e).1 * k, (inUnits num den e).2 * k) := by
  unfold inUnits
  split
  · exact Prod.ext rfl (Nat.mul_right_comm _ _ _)
  · exact Prod.ext (Nat.mul_right_comm _ _ _) rfl

theorem inUnits_lt {num den : Nat} (hden : 0 < den) (e : Int) :
    (inUnits num den e).1 / (inUnits num den e).2 < 0x20000000000000 ↔
      Within ((num : ℚ) / den) e := by
  have hpos := inUnits_pos num hden e
  have hposq : (0 : ℚ) < (inUnits num den e).2 := by exact_mod_cast hpos
  have hpow : (0 : ℚ) < 2 ^ e := zpow_pos (by norm_num) e
  rw [Nat.div_lt_iff_lt_mul hpos, Within, zpow_add₀ (by norm_num), ← div_lt_iff₀ hpow,
    ← inUnits_value num hden, div_lt_iff₀ hposq]
  constructor
  · intro h
    have hq : ((inUnits num den e).1 : ℚ) < (0x20000000000000 * (inUnits num den e).2 : Nat) := by
      exact_mod_cast h
    push_cast at hq
    norm_num
    exact hq
  · intro h
    norm_num at h
    exact_mod_cast h

/-- The number of bits of numerator and denominator tells the exponent up to one. -/
theorem leastUnit_unitExponent {num den : Nat} (hnum : 0 < num) (hden : 0 < den) :
    LeastUnit ((num : ℚ) / den) (unitExponent num den) := by
  have hdenq : (0 : ℚ) < den := by exact_mod_cast hden
  have hupper : Within ((num : ℚ) / den) ((num.log2 : Int) - den.log2 - 53 + 1) := by
    have hn : (num : ℚ) < 2 ^ (num.log2 + 1) := by exact_mod_cast Nat.lt_log2_self
    have hd : (2 : ℚ) ^ den.log2 ≤ den := by exact_mod_cast Nat.log2_self_le hden.ne'
    rw [Within, div_lt_iff₀ hdenq]
    calc (num : ℚ) < 2 ^ (num.log2 + 1) := hn
      _ = 2 ^ (53 + ((num.log2 : Int) - den.log2 - 53 + 1)) * 2 ^ den.log2 := by
        rw [← zpow_natCast 2 den.log2, ← zpow_add₀ (by norm_num), ← zpow_natCast]
        congr 1
        push_cast
        ring
      _ ≤ _ := by
        exact mul_le_mul_of_nonneg_left hd (zpow_nonneg (by norm_num) _)
  have hlower : ¬ Within ((num : ℚ) / den) ((num.log2 : Int) - den.log2 - 53 - 1) := by
    have hn : (2 : ℚ) ^ num.log2 ≤ num := by exact_mod_cast Nat.log2_self_le hnum.ne'
    have hd : (den : ℚ) < 2 ^ (den.log2 + 1) := by exact_mod_cast Nat.lt_log2_self
    rw [Within, not_lt, le_div_iff₀ hdenq]
    calc _ ≤ 2 ^ (53 + ((num.log2 : Int) - den.log2 - 53 - 1)) * 2 ^ (den.log2 + 1) :=
        mul_le_mul_of_nonneg_left hd.le (zpow_nonneg (by norm_num) _)
      _ = 2 ^ num.log2 := by
        rw [← zpow_natCast 2 (den.log2 + 1), ← zpow_add₀ (by norm_num), ← zpow_natCast]
        congr 1
        push_cast
        ring
      _ ≤ num := hn
  unfold unitExponent
  dsimp only
  generalize (num.log2 : Int) - den.log2 - 53 = fitting at hupper hlower
  have hleast : -1074 ≤ (if fitting < -1074 then -1074 else fitting) ∧
      fitting ≤ (if fitting < -1074 then -1074 else fitting) ∧
      ((if fitting < -1074 then -1074 else fitting) = -1074 ∨
        (if fitting < -1074 then -1074 else fitting) = fitting) := by
    split <;> omega
  generalize (if fitting < -1074 then -1074 else fitting) = least at hleast
  obtain ⟨hsmall, hfit, hor⟩ := hleast
  split
  · next h =>
    refine ⟨hsmall, (inUnits_lt hden least).mp h, ?_⟩
    rcases hor with h | h
    · exact Or.inl h
    · exact Or.inr (h ▸ hlower)
  · next h =>
    refine ⟨by omega, hupper.mono (by omega), Or.inr ?_⟩
    rw [Int.add_sub_cancel]
    exact fun hw => h ((inUnits_lt hden least).mpr hw)

theorem roundQuotient_mul {num den k : Nat} (hk : 0 < k) :
    roundQuotient (num * k) (den * k) = roundQuotient num den := by
  unfold roundQuotient
  rw [Nat.mul_mod_mul_right, Nat.mul_div_mul_right _ _ hk, ← Nat.mul_assoc]
  dsimp only
  simp only [Nat.mul_lt_mul_right hk]

theorem roundQuotient_exact {n d : Nat} (hd : 0 < d) : roundQuotient (n * d) d = n := by
  unfold roundQuotient
  rw [Nat.mul_mod_left, Nat.mul_div_cancel _ hd]
  simp [hd]

theorem ofQuotient_mul (negative : Bool) {num den k : Nat} (hnum : 0 < num) (hden : 0 < den)
    (hk : 0 < k) : ofQuotient negative (num * k) (den * k) = ofQuotient negative num den := by
  have hvalue : ((num * k : Nat) : ℚ) / (den * k : Nat) = (num : ℚ) / den := by
    have hkq : (k : ℚ) ≠ 0 := by exact_mod_cast hk.ne'
    push_cast
    exact mul_div_mul_right _ _ hkq
  have hunit : unitExponent (num * k) (den * k) = unitExponent num den := by
    have h := leastUnit_unitExponent (Nat.mul_pos hnum hk) (Nat.mul_pos hden hk)
    rw [hvalue] at h
    exact h.unique (leastUnit_unitExponent hnum hden)
  unfold ofQuotient
  dsimp only
  rw [hunit, inUnits_mul]
  dsimp only
  rw [roundQuotient_mul hk]

theorem toQuotient_pos (x : Binary64) : 0 < x.toQuotient.2 := by
  unfold toQuotient
  split
  · exact Nat.one_pos
  · exact Nat.pow_pos (by decide)

theorem toQuotient_value (x : Binary64) :
    (x.toQuotient.1 : ℚ) / x.toQuotient.2 = x.mantissa * 2 ^ x.exponent := by
  unfold toQuotient
  split
  · next he =>
    obtain ⟨k, hk⟩ := Int.eq_ofNat_of_zero_le he
    rw [hk]
    simp
  · next he =>
    obtain ⟨k, hk⟩ : ∃ k : Nat, x.exponent = -k := ⟨(-x.exponent).toNat, by omega⟩
    rw [hk]
    simp [div_eq_mul_inv]

theorem toQuotient_num_pos {x : Binary64} (h : x.mantissa ≠ 0) : 0 < x.toQuotient.1 := by
  unfold toQuotient
  split
  · exact Nat.mul_pos (Nat.pos_of_ne_zero h) (Nat.pow_pos (by decide))
  · exact Nat.pos_of_ne_zero h

theorem leastUnit_exponent (x : Binary64) :
    LeastUnit (x.mantissa * 2 ^ x.exponent) x.exponent := by
  obtain ⟨hm, hsmall, -, hfull⟩ := x.canonical
  have hpow : (0 : ℚ) < 2 ^ x.exponent := zpow_pos (by norm_num) _
  refine ⟨hsmall, ?_, ?_⟩
  · have hmq : (x.mantissa : ℚ) < 2 ^ (53 : Int) := by
      rw [show (2 : ℚ) ^ (53 : Int) = (0x20000000000000 : Nat) by norm_num]
      exact_mod_cast hm
    rw [Within, zpow_add₀ (by norm_num)]
    exact mul_lt_mul_of_pos_right hmq hpow
  · rcases hfull with hfull | hfull
    · right
      have hmq : (2 : ℚ) ^ (52 : Int) ≤ x.mantissa := by
        rw [show (2 : ℚ) ^ (52 : Int) = (0x10000000000000 : Nat) by norm_num]
        exact_mod_cast hfull
      rw [Within, not_lt, show 53 + (x.exponent - 1) = 52 + x.exponent by ring,
        zpow_add₀ (by norm_num)]
      exact mul_le_mul_of_nonneg_right hmq hpow.le
    · exact Or.inl hfull

theorem inUnits_toQuotient (x : Binary64) :
    (inUnits x.toQuotient.1 x.toQuotient.2 x.exponent).1 =
      x.mantissa * (inUnits x.toQuotient.1 x.toQuotient.2 x.exponent).2 := by
  have hvalue := inUnits_value x.toQuotient.1 x.toQuotient_pos x.exponent
  have hpos := inUnits_pos x.toQuotient.1 x.toQuotient_pos x.exponent
  rw [toQuotient_value, mul_div_cancel_right₀ _ (zpow_ne_zero _ (by norm_num)),
    div_eq_iff (by exact_mod_cast hpos.ne')] at hvalue
  exact_mod_cast hvalue

/-- A number is its own nearest one. -/
theorem ofQuotient_toQuotient {x : Binary64} (h : x.mantissa ≠ 0) :
    ofQuotient x.negative x.toQuotient.1 x.toQuotient.2 = some x := by
  have hunit : unitExponent x.toQuotient.1 x.toQuotient.2 = x.exponent := by
    have hleast := leastUnit_unitExponent (toQuotient_num_pos h) x.toQuotient_pos
    rw [toQuotient_value] at hleast
    exact hleast.unique x.leastUnit_exponent
  have hround : roundQuotient (inUnits x.toQuotient.1 x.toQuotient.2 x.exponent).1
      (inUnits x.toQuotient.1 x.toQuotient.2 x.exponent).2 = x.mantissa := by
    rw [inUnits_toQuotient]
    exact roundQuotient_exact (inUnits_pos _ x.toQuotient_pos _)
  unfold ofQuotient
  dsimp only
  rw [hunit, hround, dif_pos x.canonical]

end TwinGraph.Binary64
