import Mathlib.Data.List.Basic
import TwinGraph.Number.Shortest
import TwinGraph.Proofs.Number.Nearest

/-! The decimal that stands for a floating-point number reads back as that number. -/
namespace TwinGraph

theorem Text.length_ofNat_le {n k : Nat} (hk : 0 < k) :
    (Text.ofNat n).length ≤ k ↔ n < 10 ^ k :=
  Nat.length_toDigits_le_iff (by decide) hk

theorem Text.length_ofNat_pos (n : Nat) : 0 < (Text.ofNat n).length := Nat.length_toDigits_pos

theorem Text.length_ofNat_mul_pow {n : Nat} (hn : n ≠ 0) (k : Nat) :
    (Text.ofNat (n * 10 ^ k)).length = (Text.ofNat n).length + k := by
  have hpos := Text.length_ofNat_pos n
  have hten : 0 < 10 ^ k := Nat.pow_pos (by decide)
  apply le_antisymm
  · rw [Text.length_ofNat_le (by omega), Nat.pow_add]
    exact Nat.mul_lt_mul_of_pos_right ((Text.length_ofNat_le hpos).mp le_rfl) hten
  · by_contra hlt
    have hshort : n < 10 ^ ((Text.ofNat n).length - 1) := by
      have h := (Text.length_ofNat_le (n := n * 10 ^ k)
        (k := (Text.ofNat n).length - 1 + k) ?_).mp (by omega)
      · rw [Nat.pow_add] at h
        exact Nat.lt_of_mul_lt_mul_right h
      · have := Text.length_ofNat_pos (n * 10 ^ k)
        omega
    rcases Nat.eq_zero_or_pos ((Text.ofNat n).length - 1) with h | h
    · rw [h] at hshort
      omega
    · have := (Text.length_ofNat_le h).mpr hshort
      omega

namespace Binary64

theorem ofDecimal_eq (negative : Bool) {digits : Nat} {power : Int} (hdigits : digits ≠ 0)
    (hlow : -400 ≤ power + (Text.ofNat digits).length)
    (hhigh : power + (Text.ofNat digits).length ≤ 400) :
    ofDecimal negative digits power =
      ofQuotient negative (digits * 10 ^ power.toNat) (10 ^ (-power).toNat) := by
  unfold ofDecimal
  dsimp only
  rw [if_neg (by omega), if_neg (by omega)]
  split
  · next h =>
    rw [show (-power).toNat = 0 by omega]
    rfl
  · next h =>
    rw [show power.toNat = 0 by omega, Nat.pow_zero, Nat.mul_one]
    rfl

theorem ofDecimal_zeros (negative : Bool) {digits power : Nat}
    (hhigh : power + (Text.ofNat digits).length ≤ 400) :
    ofDecimal negative (digits * 10 ^ (power + 1)) (-1) = ofDecimal negative digits power := by
  by_cases hdigits : digits = 0
  · subst hdigits
    rw [Nat.zero_mul]
    rfl
  · have hpos := Text.length_ofNat_pos digits
    have hlength := Text.length_ofNat_mul_pow hdigits (power + 1)
    have hten : 0 < 10 ^ power := Nat.pow_pos (by decide)
    rw [ofDecimal_eq negative (Nat.mul_ne_zero hdigits (Nat.pow_pos (by decide)).ne') (by omega)
      (by omega), ofDecimal_eq negative hdigits (by omega) (by omega)]
    have hscale : ofQuotient negative (digits * 10 ^ power * 10) (1 * 10) =
        ofQuotient negative (digits * 10 ^ power) 1 :=
      ofQuotient_mul negative (Nat.mul_pos (Nat.pos_of_ne_zero hdigits) hten) Nat.one_pos
        (by decide)
    rw [Nat.mul_assoc, ← Nat.pow_succ] at hscale
    rw [show (-(power : Int)).toNat = 0 by omega, Int.toNat_natCast,
      show (-1 : Int).toNat = 0 from rfl, Nat.pow_zero, Nat.mul_one]
    exact hscale

theorem two_pow_le {k n : Nat} (h : k ≤ 3 * n) : 2 ^ k ≤ 10 ^ n :=
  calc 2 ^ k ≤ 2 ^ (3 * n) := Nat.pow_le_pow_right (by decide) h
    _ = 8 ^ n := by rw [Nat.pow_mul]
    _ ≤ 10 ^ n := Nat.pow_le_pow_left (by decide) n

theorem ten_pow_le {k n : Nat} (h : k ≤ 3 * n) : 10 ^ (k - n) ≤ 5 ^ k := by
  by_cases hk : k ≤ n
  · rw [Nat.sub_eq_zero_of_le hk, Nat.pow_zero]
    exact Nat.pow_pos (by decide)
  · have htwo : 2 ^ (k - n) ≤ 5 ^ n :=
      calc 2 ^ (k - n) ≤ 2 ^ (2 * n) := Nat.pow_le_pow_right (by decide) (by omega)
        _ = 4 ^ n := by rw [Nat.pow_mul]
        _ ≤ 5 ^ n := Nat.pow_le_pow_left (by decide) n
    calc 10 ^ (k - n) = 2 ^ (k - n) * 5 ^ (k - n) := Nat.mul_pow 2 5 _
      _ ≤ 5 ^ n * 5 ^ (k - n) := Nat.mul_le_mul_right _ htwo
      _ = 5 ^ k := by rw [← Nat.pow_add, Nat.add_sub_cancel' (by omega)]

theorem readsAs_exactDecimal {x : Binary64} (h : x.mantissa ≠ 0) :
    x.readsAs x.exactDecimal = true := by
  obtain ⟨hm, hsmall, hlarge, -⟩ := x.canonical
  have hbits : x.mantissa < 2 ^ 53 := hm
  have hquotient := ofQuotient_toQuotient h
  unfold readsAs
  rw [beq_iff_eq]
  unfold exactDecimal
  unfold toQuotient at hquotient
  split
  · next he =>
    rw [if_pos he] at hquotient
    obtain ⟨k, hk⟩ := Int.eq_ofNat_of_zero_le he
    rw [hk, Int.toNat_natCast] at hquotient ⊢
    have hsize : x.mantissa * 2 ^ k < 10 ^ 400 :=
      calc x.mantissa * 2 ^ k < 2 ^ 53 * 2 ^ k :=
          Nat.mul_lt_mul_of_pos_right hbits (Nat.two_pow_pos k)
        _ = 2 ^ (53 + k) := (Nat.pow_add 2 53 k).symm
        _ ≤ 10 ^ 400 := two_pow_le (by omega)
    have hlength := (Text.length_ofNat_le (by decide)).mpr hsize
    show ofDecimal x.negative (x.mantissa * 2 ^ k) 0 = some x
    rw [ofDecimal_eq x.negative (Nat.mul_ne_zero h (Nat.two_pow_pos k).ne') (by omega) (by omega)]
    show ofQuotient x.negative (x.mantissa * 2 ^ k * 1) 1 = some x
    rw [Nat.mul_one]
    exact hquotient
  · next he =>
    rw [if_neg he] at hquotient
    obtain ⟨k, hk⟩ : ∃ k : Nat, x.exponent = -k := ⟨(-x.exponent).toNat, by omega⟩
    rw [hk, neg_neg, Int.toNat_natCast] at hquotient ⊢
    have hfive : 0 < 5 ^ k := Nat.pow_pos (by decide)
    have hupper : x.mantissa * 5 ^ k < 10 ^ (16 + k) :=
      calc x.mantissa * 5 ^ k < 2 ^ 53 * 5 ^ k := Nat.mul_lt_mul_of_pos_right hbits hfive
        _ ≤ 10 ^ 16 * 10 ^ k :=
          Nat.mul_le_mul (by decide) (Nat.pow_le_pow_left (by decide) k)
        _ = 10 ^ (16 + k) := (Nat.pow_add 10 16 k).symm
    have hlength := (Text.length_ofNat_le (by omega)).mpr hupper
    have hlower : k < (Text.ofNat (x.mantissa * 5 ^ k)).length + 401 := by
      by_contra hshort
      have hpos := Text.length_ofNat_pos (x.mantissa * 5 ^ k)
      have hless : x.mantissa * 5 ^ k < 10 ^ (k - 401) :=
        (Text.length_ofNat_le (by omega)).mp (by omega)
      have hmore : 5 ^ k ≤ x.mantissa * 5 ^ k := Nat.le_mul_of_pos_left _ (Nat.pos_of_ne_zero h)
      have := ten_pow_le (k := k) (n := 401) (by omega)
      omega
    show ofDecimal x.negative (x.mantissa * 5 ^ k) (-k) = some x
    rw [ofDecimal_eq x.negative (Nat.mul_ne_zero h hfive.ne') (by omega) (by omega)]
    have hscale : ofQuotient x.negative (x.mantissa * 5 ^ k) (2 ^ k * 5 ^ k) =
        ofQuotient x.negative x.mantissa (2 ^ k) :=
      ofQuotient_mul x.negative (Nat.pos_of_ne_zero h) (Nat.two_pow_pos k) hfive
    rw [show (-(k : Int)).toNat = 0 by omega, neg_neg, Int.toNat_natCast, Nat.pow_zero,
      Nat.mul_one, show (10 : Nat) ^ k = 2 ^ k * 5 ^ k from Nat.mul_pow 2 5 k, hscale]
    exact hquotient

theorem readsAs_onGrid {x : Binary64} {count : Nat} {d : Decimal} (h : x.onGrid count = some d) :
    x.readsAs d = true := by
  have hchoice : ∀ near far : Decimal, (if x.readsAs near then some near
      else if x.readsAs far then some far else none) = some d → x.readsAs d = true := by
    intro near far h
    split at h
    · next hreads => exact Option.some.inj h ▸ hreads
    · split at h
      · next hreads => exact Option.some.inj h ▸ hreads
      · cases h
  unfold onGrid at h
  dsimp only at h
  split at h <;> split at h <;> exact hchoice _ _ h

theorem eq_zero_of_mantissa {x : Binary64} (h : x.mantissa = 0) : x = zero x.negative := by
  obtain ⟨negative, mantissa, exponent, hcanonical⟩ := x
  cases h
  have hexponent : exponent = -1074 := by
    rcases hcanonical.2.2.2 with h | h
    · exact absurd h (by decide)
    · exact h
  subst hexponent
  rfl

/-- The shortest decimal of a number reads back as the number. -/
theorem ofDecimal_shortest (x : Binary64) :
    ofDecimal x.negative x.shortest.digits x.shortest.power = some x := by
  unfold shortest
  split
  · next h =>
    rw [eq_zero_of_mantissa h]
    rfl
  · next h =>
    have hreads : x.readsAs ((((List.range 17).map (· + 1)).findSome? x.onGrid).getD
        x.exactDecimal) = true := by
      cases hfound : ((List.range 17).map (· + 1)).findSome? x.onGrid with
      | none => exact readsAs_exactDecimal h
      | some d =>
        obtain ⟨count, -, hcount⟩ := List.exists_of_findSome?_eq_some hfound
        exact readsAs_onGrid hcount
    exact beq_iff_eq.mp hreads

end Binary64
end TwinGraph
