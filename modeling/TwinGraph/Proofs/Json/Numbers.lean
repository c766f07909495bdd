import TwinGraph.Json.Reader
import TwinGraph.Proofs.Number.Decimals

/-! A number that is written is read again as it was, whatever follows that does not continue it. -/
namespace TwinGraph.Json

open Text (ofNat natValue)

def endsNumber (s : Text) : Bool :=
  s.head?.all fun c => !c.isDigit && c != '.' && c != 'e' && c != 'E'

def endsDigits (s : Text) : Bool := s.head?.all fun c => !c.isDigit

theorem endsDigits_of_endsNumber {s : Text} (h : endsNumber s = true) : endsDigits s = true := by
  cases s with
  | nil => rfl
  | cons c s =>
    simp only [endsNumber, List.head?_cons, Option.all_some, Bool.and_eq_true] at h
    exact h.1.1.1

theorem natValue_ofNat (n : Nat) : natValue (ofNat n) = n := Nat.ofDigitChars_ten_toDigits

theorem isDigit_of_mem_ofNat {n : Nat} {c : Char} (h : c ∈ ofNat n) : c.isDigit = true :=
  Nat.isDigit_of_mem_toDigits (by decide) (by decide) h

theorem readDigits_append {digits rest : Text} (hall : ∀ c ∈ digits, c.isDigit = true)
    (hne : digits ≠ []) (hrest : endsDigits rest = true) :
    readDigits (digits ++ rest) = some (digits, rest) := by
  have htake : rest.takeWhile Char.isDigit = [] ∧ rest.dropWhile Char.isDigit = rest := by
    cases rest with
    | nil => exact ⟨rfl, rfl⟩
    | cons c rest =>
      simp only [endsDigits, List.head?_cons, Option.all_some, Bool.not_eq_true'] at hrest
      exact ⟨List.takeWhile_cons_of_neg (by simp [hrest]),
        List.dropWhile_cons_of_neg (by simp [hrest])⟩
  unfold readDigits
  dsimp only
  rw [List.takeWhile_append_of_pos hall, List.dropWhile_append_of_pos hall, htake.1, htake.2,
    List.append_nil, if_neg (by simpa using hne)]

/-- Digits of a whole number: a zero alone, or no zero in front. -/
structure Integral (digits : Text) : Prop where
  digit : ∀ c ∈ digits, c.isDigit = true
  nonempty : digits ≠ []
  leading : digits = ['0'] ∨ digits.head? ≠ some '0'

theorem head?_ofNat {n : Nat} (hn : n ≠ 0) : (ofNat n).head? ≠ some '0' := by
  induction n using Nat.strongRecOn with
  | _ n ih =>
    rw [ofNat, Nat.toDigits_eq_if (by decide)]
    split
    · next hlt =>
      rw [List.head?_cons]
      have hall : ∀ m < 10, m ≠ 0 → some (Nat.digitChar m) ≠ some '0' := by decide
      exact hall n hlt hn
    · next hge =>
      rw [List.head?_append_of_ne_nil _ Nat.toDigits_ne_nil]
      exact ih (n / 10) (by omega) (by omega)

theorem integral_ofNat (n : Nat) : Integral (ofNat n) := by
  refine ⟨fun c hc => isDigit_of_mem_ofNat hc, Nat.toDigits_ne_nil, ?_⟩
  by_cases hn : n = 0
  · subst hn
    exact Or.inl rfl
  · exact Or.inr (head?_ofNat hn)

theorem readInteger_append {digits rest : Text} (h : Integral digits)
    (hrest : endsDigits rest = true) : readInteger (digits ++ rest) = some (digits, rest) := by
  rcases h.leading with rfl | hleading
  · rfl
  · have hdigits := readDigits_append h.digit h.nonempty hrest
    cases digits with
    | nil => exact absurd rfl h.nonempty
    | cons c digits =>
      have hc : c ≠ '0' := fun he => hleading (by rw [he]; rfl)
      rw [← hdigits]
      unfold readInteger
      split
      · next heq =>
        rw [List.cons_append, List.cons.injEq] at heq
        exact absurd heq.1 hc
      · rfl

theorem readFraction_point {digits rest : Text} (hall : ∀ c ∈ digits, c.isDigit = true)
    (hne : digits ≠ []) (hrest : endsDigits rest = true) :
    readFraction ('.' :: digits ++ rest) = some (some digits, rest) := by
  show (readDigits (digits ++ rest)).map _ = _
  rw [readDigits_append hall hne hrest]
  rfl

theorem readFraction_none {rest : Text} (h : rest.head? ≠ some '.') :
    readFraction rest = some (none, rest) := by
  unfold readFraction
  split
  · exact absurd rfl h
  · rfl

theorem readExponent_none {rest : Text} (h : endsNumber rest = true) :
    readExponent rest = some (none, rest) := by
  cases rest with
  | nil => rfl
  | cons c rest =>
    simp only [endsNumber, List.head?_cons, Option.all_some, Bool.and_eq_true, bne_iff_ne] at h
    have hc : ¬ (c = 'e' ∨ c = 'E') := not_or.mpr ⟨h.1.2, h.2⟩
    unfold readExponent
    dsimp only
    rw [if_neg hc]

theorem readExponent_signed (power : Int) {rest : Text} (hrest : endsDigits rest = true) :
    readExponent ('e' :: (if 0 ≤ power then '+' else '-') :: ofNat power.natAbs ++ rest) =
      some (some power, rest) := by
  have hdigits := readDigits_append (integral_ofNat power.natAbs).digit
    (integral_ofNat power.natAbs).nonempty hrest
  unfold readExponent
  rw [List.cons_append, List.cons_append]
  dsimp only
  rw [if_pos (Or.inl rfl)]
  split
  · next h =>
    show Option.map _ (Option.map _ (readDigits _)) = _
    rw [hdigits]
    simp only [Option.map_some, natValue_ofNat]
    rw [Int.natAbs_of_nonneg h]
  · next h =>
    show Option.map _ (Option.map _ (readDigits _)) = _
    rw [hdigits]
    simp only [Option.map_some, natValue_ofNat]
    rw [Int.ofNat_natAbs_of_nonpos (by omega), Int.neg_neg]

def sign (negative : Bool) : Text := if negative then ['-'] else []

def readUnsigned (negative : Bool) (s : Text) : Option (Number × Text) := do
  let (digits, s) ← readInteger s
  let (fraction, s) ← readFraction s
  let (exponent, s) ← readExponent s
  if fraction.isNone && exponent.isNone then
    return (← Number.ofNumeral negative (natValue digits), s)
  let places := fraction.getD []
  return (← Number.ofDecimal negative (natValue (digits ++ places))
    (exponent.getD 0 - places.length), s)

theorem readNumber_sign (negative : Bool) {digits : Text} (h : Integral digits) (tail : Text) :
    readNumber (sign negative ++ digits ++ tail) = readUnsigned negative (digits ++ tail) := by
  cases negative with
  | true => rfl
  | false =>
    cases digits with
    | nil => exact absurd rfl h.nonempty
    | cons c digits =>
      have hc : c ≠ '-' := by
        rintro rfl
        exact absurd (h.digit '-' List.mem_cons_self) (by decide)
      unfold readNumber
      rw [sign, if_neg Bool.false_ne_true, List.nil_append, List.cons_append]
      split
      next heq =>
        split at heq
        · next heq' =>
          rw [List.cons.injEq] at heq'
          exact absurd heq'.1 hc
        · cases heq
          rfl

theorem readNumber_parts (negative : Bool) {digits tail next rest : Text} {fraction : Option Text}
    {exponent : Option Int} (h : Integral digits) (htail : endsDigits tail = true)
    (hfraction : readFraction tail = some (fraction, next))
    (hexponent : readExponent next = some (exponent, rest)) :
    readNumber (sign negative ++ digits ++ tail) =
      (if fraction.isNone && exponent.isNone then Number.ofNumeral negative (natValue digits)
        else Number.ofDecimal negative (natValue (digits ++ fraction.getD []))
          (exponent.getD 0 - (fraction.getD []).length)).map fun n => (n, rest) := by
  rw [readNumber_sign negative h, readUnsigned, readInteger_append h htail, Option.bind_eq_bind,
    Option.bind_some]
  dsimp only
  rw [hfraction, Option.bind_eq_bind, Option.bind_some]
  dsimp only
  rw [hexponent, Option.bind_eq_bind, Option.bind_some]
  dsimp only
  split
  · cases Number.ofNumeral negative (natValue digits) <;> rfl
  · cases Number.ofDecimal negative (natValue (digits ++ fraction.getD []))
      (exponent.getD 0 - (fraction.getD []).length) <;> rfl

theorem natValue_append_zeros (n k : Nat) :
    natValue (ofNat n ++ List.replicate k '0') = n * 10 ^ k := by
  rw [natValue, Nat.ofDigitChars_append, Nat.ofDigitChars_ten_toDigits,
    Nat.ofDigitChars_replicate_zero, Nat.mul_comm]

theorem natValue_zeros_append (k n : Nat) :
    natValue (['0'] ++ (List.replicate k '0' ++ ofNat n)) = n := by
  rw [natValue, Nat.ofDigitChars_append, Nat.ofDigitChars_append, Nat.ofDigitChars_replicate_zero]
  show Nat.ofDigitChars 10 (ofNat n) 0 = n
  exact Nat.ofDigitChars_ten_toDigits

theorem Integral.take {digits : Text} (h : Integral digits) {k : Nat} (hk : 0 < k) :
    Integral (digits.take k) := by
  cases digits with
  | nil => exact absurd rfl h.nonempty
  | cons c digits =>
    obtain ⟨k, rfl⟩ : ∃ j, k = j + 1 := ⟨k - 1, by omega⟩
    rw [List.take_succ_cons]
    refine ⟨fun d hd => ?_, by simp, ?_⟩
    · rw [← List.take_succ_cons] at hd
      exact h.digit d (List.mem_of_mem_take hd)
    · rcases h.leading with hzero | hhead
      · rw [List.cons.injEq] at hzero
        left
        rw [hzero.1, hzero.2, List.take_nil]
      · exact Or.inr hhead

theorem Integral.append_zeros {n : Nat} (k : Nat) (h : n ≠ 0 ∨ k = 0) :
    Integral (ofNat n ++ List.replicate k '0') := by
  have hn := integral_ofNat n
  refine ⟨fun c hc => ?_, by simp, ?_⟩
  · rcases List.mem_append.mp hc with hc | hc
    · exact hn.digit c hc
    · rw [List.eq_of_mem_replicate hc]
      rfl
  · rcases h with h | rfl
    · right
      rw [List.head?_append_of_ne_nil _ Nat.toDigits_ne_nil]
      exact head?_ofNat h
    · rw [List.replicate_zero, List.append_nil]
      exact hn.leading

theorem readNumber_point (negative : Bool) {digits places rest : Text} (h : Integral digits)
    (hall : ∀ c ∈ places, c.isDigit = true) (hne : places ≠ []) (hrest : endsNumber rest = true) :
    readNumber (sign negative ++ (digits ++ '.' :: places) ++ rest) =
      (Number.ofDecimal negative (natValue (digits ++ places)) (0 - places.length)).map
        fun n => (n, rest) := by
  have hfraction := readFraction_point hall hne (endsDigits_of_endsNumber hrest)
  have hread := readNumber_parts negative h rfl hfraction (readExponent_none hrest)
  have htext : sign negative ++ (digits ++ '.' :: places) ++ rest =
      sign negative ++ digits ++ ('.' :: places ++ rest) := by simp
  rw [htext, hread]
  rfl

theorem readNumber_scaled (negative : Bool) {digits places rest : Text} (h : Integral digits)
    (hall : ∀ c ∈ places, c.isDigit = true) (power : Int) (hrest : endsNumber rest = true) :
    readNumber (sign negative ++ (digits ++ Decimal.fraction places ++
        'e' :: (if 0 ≤ power then '+' else '-') :: ofNat power.natAbs) ++ rest) =
      (Number.ofDecimal negative (natValue (digits ++ places)) (power - places.length)).map
        fun n => (n, rest) := by
  have hexponent := readExponent_signed power (endsDigits_of_endsNumber hrest)
  generalize hscale : ('e' :: (if 0 ≤ power then '+' else '-') :: ofNat power.natAbs) = scale
    at hexponent ⊢
  have hhead : (scale ++ rest).head? = some 'e' := by
    rw [← hscale]
    rfl
  have hends : endsDigits (scale ++ rest) = true := by
    rw [endsDigits, hhead]
    rfl
  cases places with
  | nil =>
    have hfraction : readFraction (scale ++ rest) = some (none, scale ++ rest) :=
      readFraction_none (by rw [hhead]; decide)
    have htext : sign negative ++ (digits ++ Decimal.fraction [] ++ scale) ++ rest =
        sign negative ++ digits ++ (scale ++ rest) := by simp [Decimal.fraction]
    rw [htext, readNumber_parts negative h hends hfraction hexponent]
    rfl
  | cons c places =>
    have hfraction := readFraction_point hall (List.cons_ne_nil c places) hends
    have htext : sign negative ++ (digits ++ Decimal.fraction (c :: places) ++ scale) ++ rest =
        sign negative ++ digits ++ ('.' :: (c :: places) ++ (scale ++ rest)) := by
      simp [Decimal.fraction]
    rw [htext, readNumber_parts negative h rfl hfraction hexponent]
    rfl

/-- However a decimal is written, the number read is the nearest to it. -/
theorem readNumber_decimal (negative : Bool) {d : Decimal} (hd : d.digits ≠ 0 ∨ d.power = 0)
    {rest : Text} (hrest : endsNumber rest = true) :
    readNumber (sign negative ++ d.render ++ rest) =
      (Number.ofDecimal negative d.digits d.power).map fun n => (n, rest) := by
  obtain ⟨n, power⟩ := d
  simp only at hd
  have hpositive := Text.length_ofNat_pos n
  have hn := integral_ofNat n
  unfold Decimal.render
  dsimp only
  split
  · next hrange =>
    split
    · next hpower =>
      obtain ⟨k, rfl⟩ := Int.eq_ofNat_of_zero_le hpower
      have hzeros : n ≠ 0 ∨ k = 0 := hd.imp_right fun h => by omega
      have hdigit : ∀ c ∈ ['0'], c.isDigit = true := by
        intro c hc
        rw [List.mem_singleton.mp hc]
        rfl
      have hread := readNumber_point negative (Integral.append_zeros k hzeros) hdigit
        (List.cons_ne_nil _ _) hrest
      have htext : ofNat n ++ List.replicate (k : Int).toNat '0' ++ ['.', '0'] =
          ofNat n ++ List.replicate k '0' ++ ['.', '0'] := rfl
      rw [htext, hread]
      rw [List.append_assoc, ← List.replicate_succ', natValue_append_zeros]
      show ((Binary64.ofDecimal negative (n * 10 ^ (k + 1)) (-1)).map Number.float).map _ = _
      rw [Binary64.ofDecimal_zeros negative (by omega)]
      rfl
    · next hpower =>
      split
      · next hleading =>
        generalize hk : ((ofNat n).length - 1 + power : Int).toNat + 1 = k
        have hlength : 0 - (((ofNat n).drop k).length : Int) = power := by
          rw [List.length_drop]
          omega
        have hne : (ofNat n).drop k ≠ [] := fun hnil => by
          rw [hnil] at hlength
          simp at hlength
          omega
        rw [readNumber_point negative (hn.take (by omega))
          (fun c hc => hn.digit c (List.mem_of_mem_drop hc)) hne hrest, List.take_append_drop,
          natValue_ofNat, hlength]
      · next hleading =>
        generalize hk : (-((ofNat n).length - 1 + power : Int)).toNat - 1 = k
        have hlength : 0 - ((List.replicate k '0' ++ ofNat n).length : Int) = power := by
          rw [List.length_append, List.length_replicate]
          push_cast
          omega
        have hall : ∀ c ∈ List.replicate k '0' ++ ofNat n, c.isDigit = true := by
          intro c hc
          rcases List.mem_append.mp hc with hc | hc
          · rw [List.eq_of_mem_replicate hc]
            rfl
          · exact hn.digit c hc
        have hread := readNumber_point negative (integral_ofNat 0) hall (by simp) hrest
        refine hread.trans ?_
        show (Number.ofDecimal negative (natValue (['0'] ++ (List.replicate k '0' ++ ofNat n)))
          _).map _ = _
        rw [natValue_zeros_append, hlength]
  · next hrange =>
    have hlength : (ofNat n).length - 1 + power - ((ofNat n).drop 1).length = power := by
      rw [List.length_drop]
      omega
    rw [readNumber_scaled negative (hn.take Nat.one_pos)
      (fun c hc => hn.digit c (List.mem_of_mem_drop hc)) _ hrest, List.take_append_drop,
      natValue_ofNat, hlength]

theorem readNumber_float (x : Binary64) {rest : Text} (hrest : endsNumber rest = true) :
    readNumber (x.render ++ rest) = some (.float x, rest) := by
  have hreads := x.ofDecimal_shortest
  have hzero : x.shortest.digits ≠ 0 ∨ x.shortest.power = 0 := by
    by_cases hdigits : x.shortest.digits = 0
    · right
      rw [hdigits] at hreads
      have hx : Binary64.zero x.negative = x := Option.some.inj hreads
      have hm : x.mantissa = 0 := by
        rw [← hx]
        rfl
      unfold Binary64.shortest
      rw [if_pos hm]
    · exact Or.inl hdigits
  have hdecimal := readNumber_decimal x.negative hzero hrest
  rw [Number.ofDecimal, hreads] at hdecimal
  exact hdecimal

theorem ofNumeral_eq {negative : Bool} {digits : Nat} {value : Int} (fits : Number.Fits value)
    (hvalue : (if negative then -digits else digits : Int) = value)
    (hzero : ¬ (negative = true ∧ digits = 0)) :
    Number.ofNumeral negative digits = some (.whole value fits) := by
  subst hvalue
  exact dif_pos ⟨hzero, fits⟩

theorem readNumber_render (n : Number) {rest : Text} (hrest : endsNumber rest = true) :
    readNumber (n.render ++ rest) = some (n, rest) := by
  have hfraction : readFraction rest = some (none, rest) := by
    refine readFraction_none fun h => ?_
    rw [endsNumber, h] at hrest
    revert hrest
    decide
  cases n with
  | float x => exact readNumber_float x hrest
  | whole value fits =>
    have hread : ∀ negative, (if negative then -value.natAbs else value.natAbs : Int) = value →
        ¬ (negative = true ∧ value.natAbs = 0) →
        readNumber (sign negative ++ ofNat value.natAbs ++ rest) =
          some (.whole value fits, rest) := by
      intro negative hvalue hzero
      have hparts := readNumber_parts negative (integral_ofNat value.natAbs)
        (endsDigits_of_endsNumber hrest) hfraction (readExponent_none hrest)
      rw [natValue_ofNat] at hparts
      refine hparts.trans ?_
      show (Number.ofNumeral negative value.natAbs).map _ = _
      rw [ofNumeral_eq fits hvalue hzero]
      rfl
    show readNumber ((if 0 ≤ value then ofNat value.toNat else '-' :: ofNat value.natAbs) ++ rest) =
      _
    split
    · next h =>
      rw [show value.toNat = value.natAbs by omega]
      exact hread false (by simp [abs_of_nonneg h]) (by simp)
    · next h => exact hread true (by simp [abs_of_neg (not_le.mp h)]) (by omega)

end TwinGraph.Json
