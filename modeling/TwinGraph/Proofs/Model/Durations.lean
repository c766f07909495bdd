import TwinGraph.Model.Conformance
import Mathlib.Computability.Language

/-! The written form of durations. A duration is a row of numbers with units, days and what is longer
in front of a `T` and hours and what is shorter behind it. -/
namespace TwinGraph

namespace Temporal

structure Numeral where
  digits : Text
  nonempty : digits ≠ []
  decimal : ∀ c ∈ digits, isDecimalDigit c = true

namespace Numeral

def withUnit (unit : Char) : Option Numeral → Text
  | none => []
  | some n => n.digits ++ [unit]

def asFraction : Option Numeral → Text
  | none => []
  | some n => '.' :: n.digits

theorem withUnit_eq_nil {unit : Char} {n : Option Numeral} : withUnit unit n = [] ↔ n = none := by
  cases n <;> simp [withUnit]

end Numeral

structure Seconds where
  whole : Numeral
  fraction : Option Numeral

def Seconds.written : Option Seconds → Text
  | none => []
  | some s => s.whole.digits ++ Numeral.asFraction s.fraction ++ ['S']

theorem Seconds.written_eq_nil {s : Option Seconds} : Seconds.written s = [] ↔ s = none := by
  cases s <;> simp [Seconds.written]

structure DaySpan where
  years : Option Numeral
  months : Option Numeral
  weeks : Option Numeral
  days : Option Numeral

structure ClockSpan where
  hours : Option Numeral
  minutes : Option Numeral
  seconds : Option Seconds

namespace DaySpan

def text (d : DaySpan) : Text :=
  Numeral.withUnit 'Y' d.years ++ (Numeral.withUnit 'M' d.months ++
    (Numeral.withUnit 'W' d.weeks ++ Numeral.withUnit 'D' d.days))

def Present (d : DaySpan) : Prop :=
  d.years.isSome ∨ d.months.isSome ∨ d.weeks.isSome ∨ d.days.isSome

end DaySpan

namespace ClockSpan

def text (c : ClockSpan) : Text :=
  Numeral.withUnit 'H' c.hours ++ (Numeral.withUnit 'M' c.minutes ++ Seconds.written c.seconds)

def Present (c : ClockSpan) : Prop := c.hours.isSome ∨ c.minutes.isSome ∨ c.seconds.isSome

end ClockSpan

/-- A duration has at least one component, and one behind the `T` if it has that. -/
structure Duration where
  days : DaySpan
  clock : Option ClockSpan
  clock_present : ∀ c ∈ clock, c.Present
  present : days.Present ∨ clock.isSome

def Duration.text (d : Duration) : Text :=
  'P' :: (d.days.text ++ match d.clock with
    | none => []
    | some c => 'T' :: c.text)

variable {s rest : Text} {unit other : Char}

/-! ### Numbers with units -/

def unitAt (s : Text) : Option Char := (afterDigits s).bind List.head?

theorem afterDigits_numeral (n : Numeral) (h : ∀ c ∈ rest.head?, isDecimalDigit c = false) :
    afterDigits (n.digits ++ rest) = some rest := by
  obtain ⟨digits, hne, hdecimal⟩ := n
  obtain ⟨c, digits, rfl⟩ := List.exists_cons_of_ne_nil hne
  rw [List.forall_mem_cons] at hdecimal
  have hrest : rest.dropWhile isDecimalDigit = rest := by
    cases rest with
    | nil => rfl
    | cons d rest => exact List.dropWhile_cons_of_neg (by rw [h d rfl]; exact Bool.false_ne_true)
  rw [List.cons_append, afterDigits, if_pos hdecimal.1, List.dropWhile_append_of_pos hdecimal.2,
    hrest]

theorem exists_numeral (h : afterDigits s = some rest) : ∃ n : Numeral, s = n.digits ++ rest := by
  cases s with
  | nil => cases h
  | cons c s =>
    rw [afterDigits] at h
    split at h
    · next hc =>
      cases h
      refine ⟨⟨c :: s.takeWhile isDecimalDigit, List.cons_ne_nil _ _, ?_⟩, ?_⟩
      · exact List.forall_mem_cons.mpr ⟨hc, fun d hd =>
          List.all_eq_true.mp List.all_takeWhile d hd⟩
      · rw [List.cons_append, List.takeWhile_append_dropWhile]
    · cases h

theorem unitAt_of_not_digit (h : ∀ c ∈ s.head?, isDecimalDigit c = false) : unitAt s = none := by
  cases s with
  | nil => rfl
  | cons c s => rw [unitAt, afterDigits, if_neg (by rw [h c rfl]; exact Bool.false_ne_true)]; rfl

theorem unitAt_numeral (n : Numeral) (hunit : isDecimalDigit unit = false) (rest : Text) :
    unitAt (n.digits ++ unit :: rest) = some unit := by
  rw [unitAt, afterDigits_numeral n (by rintro c ⟨⟩; exact hunit)]
  rfl

theorem unitAt_withUnit (hunit : isDecimalDigit unit = false) (n : Option Numeral) (rest : Text) :
    unitAt (Numeral.withUnit unit n ++ rest) = if n.isSome then some unit else unitAt rest := by
  cases n with
  | none => rfl
  | some n => rw [Numeral.withUnit, List.append_assoc]; exact unitAt_numeral n hunit rest

theorem unitAt_withUnit_ne (hunit : isDecimalDigit unit = false) (hne : unit ≠ other)
    (n : Option Numeral) (h : unitAt rest ≠ some other) :
    unitAt (Numeral.withUnit unit n ++ rest) ≠ some other := by
  rw [unitAt_withUnit hunit]
  split
  · simpa using hne
  · exact h

/-- A component that is not there is passed over if what follows has another unit. -/
theorem skipComponent_of_unitAt (h : unitAt s ≠ some unit) : skipComponent unit s = s := by
  unfold skipComponent
  split
  · rfl
  · next rest hrest =>
    cases rest with
    | nil => rfl
    | cons c rest =>
      rw [unitAt, hrest] at h
      have hc : unit ≠ c := fun heq => h (by rw [heq]; rfl)
      rw [Text.after?, if_neg hc]
      rfl

theorem skipComponent_withUnit (hunit : isDecimalDigit unit = false) (n : Option Numeral)
    (h : unitAt rest ≠ some unit) :
    skipComponent unit (Numeral.withUnit unit n ++ rest) = rest := by
  cases n with
  | none => exact skipComponent_of_unitAt h
  | some n =>
    have hdigits : afterDigits (n.digits ++ unit :: rest) = some (unit :: rest) :=
      afterDigits_numeral n (by rintro c ⟨⟩; exact hunit)
    rw [Numeral.withUnit, List.append_assoc, List.singleton_append, skipComponent, hdigits]
    exact congrArg (Option.getD · _) (if_pos rfl)

/-- What is passed over is a component. -/
theorem exists_withUnit (unit : Char) (s : Text) :
    ∃ n : Option Numeral, s = Numeral.withUnit unit n ++ skipComponent unit s := by
  unfold skipComponent
  split
  · exact ⟨none, rfl⟩
  · next rest hrest =>
    obtain ⟨n, hn⟩ := exists_numeral hrest
    cases hafter : Text.after? [unit] rest with
    | none => exact ⟨none, rfl⟩
    | some after =>
      refine ⟨some n, ?_⟩
      rw [hn, Text.after?_eq_some_iff.mp hafter, Numeral.withUnit, List.append_assoc]
      rfl

/-! ### Seconds -/

theorem unitAt_seconds (s : Option Seconds) :
    unitAt (Seconds.written s) ≠ some 'H' ∧ unitAt (Seconds.written s) ≠ some 'M' := by
  cases s with
  | none => decide
  | some s =>
    obtain ⟨whole, fraction⟩ := s
    cases fraction with
    | none =>
      rw [Seconds.written, Numeral.asFraction, List.append_nil, unitAt_numeral whole (by decide)]
      decide
    | some fraction =>
      rw [Seconds.written, Numeral.asFraction, List.append_assoc, List.cons_append,
        unitAt_numeral whole (by decide)]
      decide

theorem skipSeconds_written (s : Option Seconds) : skipSeconds (Seconds.written s) = [] := by
  cases s with
  | none => rfl
  | some s =>
    obtain ⟨whole, fraction⟩ := s
    cases fraction with
    | none =>
      have hwhole : afterDigits (whole.digits ++ ['S']) = some ['S'] :=
        afterDigits_numeral whole (by rintro c ⟨⟩; decide)
      rw [Seconds.written, Numeral.asFraction, List.append_nil, skipSeconds, hwhole]
      rfl
    | some fraction =>
      have hfraction : afterDigits (fraction.digits ++ ['S']) = some ['S'] :=
        afterDigits_numeral fraction (by rintro c ⟨⟩; decide)
      have hwhole : afterDigits (whole.digits ++ '.' :: (fraction.digits ++ ['S'])) =
          some ('.' :: (fraction.digits ++ ['S'])) :=
        afterDigits_numeral whole (by rintro c ⟨⟩; decide)
      have hpoint : Text.after? ['.'] ('.' :: (fraction.digits ++ ['S'])) =
          some (fraction.digits ++ ['S']) := if_pos rfl
      rw [Seconds.written, Numeral.asFraction, List.append_assoc, List.cons_append, skipSeconds,
        hwhole]
      dsimp only
      rw [hpoint, Option.bind_some, hfraction]
      rfl

theorem exists_seconds (s : Text) : ∃ seconds, s = Seconds.written seconds ++ skipSeconds s := by
  unfold skipSeconds
  split
  · exact ⟨none, rfl⟩
  · next rest hrest =>
    obtain ⟨whole, hwhole⟩ := exists_numeral hrest
    split
    · next behind hbehind =>
      obtain ⟨point, hpoint, hfraction⟩ := Option.bind_eq_some_iff.mp hbehind
      obtain ⟨fraction, hfraction⟩ := exists_numeral hfraction
      cases hafter : Text.after? ['S'] behind with
      | none => exact ⟨none, rfl⟩
      | some after =>
        refine ⟨some ⟨whole, some fraction⟩, ?_⟩
        rw [hwhole, Text.after?_eq_some_iff.mp hpoint, hfraction,
          Text.after?_eq_some_iff.mp hafter, Seconds.written, Numeral.asFraction]
        simp
    · cases hafter : Text.after? ['S'] rest with
      | none => exact ⟨none, rfl⟩
      | some after =>
        refine ⟨some ⟨whole, none⟩, ?_⟩
        rw [hwhole, Text.after?_eq_some_iff.mp hafter, Seconds.written, Numeral.asFraction]
        simp

/-! ### Spans -/

namespace DaySpan

def skip (s : Text) : Text :=
  skipComponent 'D' (skipComponent 'W' (skipComponent 'M' (skipComponent 'Y' s)))

theorem skip_text (d : DaySpan) (h : unitAt rest = none) : skip (d.text ++ rest) = rest := by
  have hrest : ∀ c, unitAt rest ≠ some c := fun c => by rw [h]; exact nofun
  -- each unit comes once, so none of the components behind it has it
  have hdays : ∀ c, 'D' ≠ c → unitAt (Numeral.withUnit 'D' d.days ++ rest) ≠ some c :=
    fun c hc => unitAt_withUnit_ne (by decide) hc _ (hrest c)
  have hweeks : ∀ c, 'W' ≠ c → 'D' ≠ c →
      unitAt (Numeral.withUnit 'W' d.weeks ++ (Numeral.withUnit 'D' d.days ++ rest)) ≠ some c :=
    fun c hw hd => unitAt_withUnit_ne (by decide) hw _ (hdays c hd)
  have hmonths : unitAt (Numeral.withUnit 'M' d.months ++ (Numeral.withUnit 'W' d.weeks ++
      (Numeral.withUnit 'D' d.days ++ rest))) ≠ some 'Y' :=
    unitAt_withUnit_ne (by decide) (by decide) _ (hweeks 'Y' (by decide) (by decide))
  unfold skip text
  rw [List.append_assoc, List.append_assoc, List.append_assoc,
    skipComponent_withUnit (by decide) _ hmonths,
    skipComponent_withUnit (by decide) _ (hweeks 'M' (by decide) (by decide)),
    skipComponent_withUnit (by decide) _ (hdays 'W' (by decide)),
    skipComponent_withUnit (by decide) _ (hrest 'D')]

theorem exists_text (s : Text) : ∃ d : DaySpan, s = d.text ++ skip s := by
  obtain ⟨years, hyears⟩ := exists_withUnit 'Y' s
  obtain ⟨months, hmonths⟩ := exists_withUnit 'M' (skipComponent 'Y' s)
  obtain ⟨weeks, hweeks⟩ := exists_withUnit 'W' (skipComponent 'M' (skipComponent 'Y' s))
  obtain ⟨days, hdays⟩ :=
    exists_withUnit 'D' (skipComponent 'W' (skipComponent 'M' (skipComponent 'Y' s)))
  refine ⟨⟨years, months, weeks, days⟩, ?_⟩
  conv_lhs => rw [hyears, hmonths, hweeks, hdays]
  simp [text, skip]

theorem text_eq_nil {d : DaySpan} : d.text = [] ↔ ¬ d.Present := by
  simp [text, Present, Numeral.withUnit_eq_nil, Option.isSome_iff_ne_none]

end DaySpan

namespace ClockSpan

def skip (s : Text) : Text := skipSeconds (skipComponent 'M' (skipComponent 'H' s))

theorem skip_text (c : ClockSpan) : skip c.text = [] := by
  obtain ⟨hhours, hminutes⟩ := unitAt_seconds c.seconds
  have hnext : unitAt (Numeral.withUnit 'M' c.minutes ++ Seconds.written c.seconds) ≠ some 'H' :=
    unitAt_withUnit_ne (by decide) (by decide) _ hhours
  unfold skip text
  rw [skipComponent_withUnit (by decide) c.hours hnext,
    skipComponent_withUnit (by decide) c.minutes hminutes, skipSeconds_written]

theorem exists_text (s : Text) : ∃ c : ClockSpan, s = c.text ++ skip s := by
  obtain ⟨hours, hhours⟩ := exists_withUnit 'H' s
  obtain ⟨minutes, hminutes⟩ := exists_withUnit 'M' (skipComponent 'H' s)
  obtain ⟨seconds, hseconds⟩ := exists_seconds (skipComponent 'M' (skipComponent 'H' s))
  refine ⟨⟨hours, minutes, seconds⟩, ?_⟩
  conv_lhs => rw [hhours, hminutes, hseconds]
  simp [text, skip]

theorem text_eq_nil {c : ClockSpan} : c.text = [] ↔ ¬ c.Present := by
  simp [text, Present, Numeral.withUnit_eq_nil, Seconds.written_eq_nil, Option.isSome_iff_ne_none]

end ClockSpan

/-! ### Durations -/

theorem isDuration_cons (s : Text) : isDuration ('P' :: s) =
    match DaySpan.skip s with
    | [] => !s.isEmpty
    | 'T' :: t => !t.isEmpty && (ClockSpan.skip t).isEmpty
    | _ => false := rfl

/-- A text that is accepted is a row of days, and perhaps a row of hours behind a `T`. -/
theorem isDuration_iff : isDuration s = true ↔ ∃ days : DaySpan,
    (s = 'P' :: days.text ∧ days.text ≠ []) ∨
      ∃ clock : ClockSpan, s = 'P' :: (days.text ++ 'T' :: clock.text) ∧ clock.text ≠ [] := by
  constructor
  · intro h
    obtain ⟨s, rfl⟩ : ∃ t, s = 'P' :: t := by
      unfold isDuration at h
      split at h
      · exact ⟨_, rfl⟩
      · cases h
    rw [isDuration_cons] at h
    obtain ⟨days, hdays⟩ := DaySpan.exists_text s
    refine ⟨days, ?_⟩
    split at h
    · next hskip =>
      rw [hskip, List.append_nil] at hdays
      exact Or.inl ⟨congrArg _ hdays, by rw [← hdays]; simpa using h⟩
    · next t hskip =>
      obtain ⟨clock, hclock⟩ := ClockSpan.exists_text t
      rw [Bool.and_eq_true, List.isEmpty_iff] at h
      rw [h.2, List.append_nil] at hclock
      rw [hskip, hclock] at hdays
      exact Or.inr ⟨clock, congrArg _ hdays, by rw [← hclock]; simpa using h.1⟩
    · cases h
  · rintro ⟨days, ⟨rfl, hne⟩ | ⟨clock, rfl, hne⟩⟩
    · have hskip : DaySpan.skip (days.text ++ []) = [] := days.skip_text rfl
      rw [List.append_nil] at hskip
      rw [isDuration_cons, hskip]
      simpa using hne
    · have hskip : DaySpan.skip (days.text ++ 'T' :: clock.text) = 'T' :: clock.text :=
        days.skip_text (unitAt_of_not_digit (by rintro c ⟨⟩; decide))
      rw [isDuration_cons, hskip]
      show (!clock.text.isEmpty && (ClockSpan.skip clock.text).isEmpty) = true
      rw [clock.skip_text]
      simpa using hne

theorem isDuration_iff_exists : isDuration s = true ↔ ∃ d : Duration, d.text = s := by
  rw [isDuration_iff]
  constructor
  · rintro ⟨days, ⟨rfl, hne⟩ | ⟨clock, rfl, hne⟩⟩
    · have hpresent : days.Present := not_not.mp (mt DaySpan.text_eq_nil.mpr hne)
      refine ⟨⟨days, none, nofun, Or.inl hpresent⟩, ?_⟩
      simp [Duration.text]
    · have hpresent : clock.Present := not_not.mp (mt ClockSpan.text_eq_nil.mpr hne)
      exact ⟨⟨days, some clock, by rintro c ⟨⟩; exact hpresent, Or.inr rfl⟩, rfl⟩
  · rintro ⟨⟨days, clock, hclock, hpresent⟩, rfl⟩
    cases clock with
    | none =>
      have hdays : days.Present := hpresent.resolve_right (by decide)
      exact ⟨days, Or.inl ⟨by simp [Duration.text], fun hnil => DaySpan.text_eq_nil.mp hnil hdays⟩⟩
    | some clock =>
      exact ⟨days, Or.inr ⟨clock, rfl, fun hnil =>
        ClockSpan.text_eq_nil.mp hnil (hclock clock rfl)⟩⟩

/-! ### The pattern -/

open Computability

def letter (c : Char) : Language Char := {[c]}

def perhaps (l : Language Char) : Language Char := 1 + l

def digit : Language Char := {s | ∃ c, s = [c] ∧ isDecimalDigit c = true}

def number : Language Char := digit * digit∗

def component (unit : Char) : Language Char := perhaps (number * letter unit)

def datePattern : Language Char :=
  component 'Y' * (component 'M' * (component 'W' * component 'D'))

def clockPattern : Language Char :=
  component 'H' * (component 'M' *
    perhaps (number * (perhaps (letter '.' * number) * letter 'S')))

/-- `P(\d+Y)?(\d+M)?(\d+W)?(\d+D)?(T(\d+H)?(\d+M)?(\d+(\.\d+)?S)?)?` -/
def durationPattern : Language Char :=
  letter 'P' * (datePattern * perhaps (letter 'T' * clockPattern))

theorem mem_letter {c : Char} : s ∈ letter c ↔ s = [c] := Iff.rfl

theorem mem_perhaps {l : Language Char} : s ∈ perhaps l ↔ s = [] ∨ s ∈ l := Iff.rfl

theorem mem_number : s ∈ number ↔ ∃ n : Numeral, n.digits = s := by
  constructor
  · rintro ⟨_, ⟨c, rfl, hc⟩, _, ⟨parts, rfl, hparts⟩, rfl⟩
    refine ⟨⟨c :: parts.flatten, List.cons_ne_nil _ _, List.forall_mem_cons.mpr ⟨hc, ?_⟩⟩, rfl⟩
    intro d hd
    obtain ⟨part, hpart, hd⟩ := List.mem_flatten.mp hd
    obtain ⟨e, rfl, he⟩ := hparts part hpart
    rwa [List.mem_singleton.mp hd]
  · rintro ⟨⟨digits, hne, hdecimal⟩, rfl⟩
    obtain ⟨c, digits, rfl⟩ := List.exists_cons_of_ne_nil hne
    rw [List.forall_mem_cons] at hdecimal
    refine Language.mem_mul.mpr ⟨[c], ⟨c, rfl, hdecimal.1⟩, digits, ?_, rfl⟩
    refine ⟨digits.map ([·]), (List.flatMap_singleton' digits).symm, fun part hpart => ?_⟩
    obtain ⟨d, hd, rfl⟩ := List.mem_map.mp hpart
    exact ⟨d, rfl, hdecimal.2 d hd⟩

theorem mem_component : s ∈ component unit ↔ ∃ n, Numeral.withUnit unit n = s := by
  rw [component, mem_perhaps, Language.mem_mul]
  constructor
  · rintro (rfl | ⟨_, hn, _, rfl, rfl⟩)
    · exact ⟨none, rfl⟩
    · obtain ⟨n, rfl⟩ := mem_number.mp hn
      exact ⟨some n, rfl⟩
  · rintro ⟨_ | n, rfl⟩
    · exact Or.inl rfl
    · exact Or.inr ⟨_, mem_number.mpr ⟨n, rfl⟩, _, rfl, rfl⟩

theorem mem_fraction :
    s ∈ perhaps (letter '.' * number) ↔ ∃ n, Numeral.asFraction n = s := by
  rw [mem_perhaps, Language.mem_mul]
  constructor
  · rintro (rfl | ⟨_, rfl, _, hn, rfl⟩)
    · exact ⟨none, rfl⟩
    · obtain ⟨n, rfl⟩ := mem_number.mp hn
      exact ⟨some n, rfl⟩
  · rintro ⟨_ | n, rfl⟩
    · exact Or.inl rfl
    · exact Or.inr ⟨_, rfl, _, mem_number.mpr ⟨n, rfl⟩, rfl⟩

theorem mem_seconds : s ∈ perhaps (number * (perhaps (letter '.' * number) * letter 'S')) ↔
    ∃ seconds, Seconds.written seconds = s := by
  rw [mem_perhaps, Language.mem_mul]
  constructor
  · rintro (rfl | ⟨_, hwhole, _, ⟨_, hfraction, _, rfl, rfl⟩, rfl⟩)
    · exact ⟨none, rfl⟩
    · obtain ⟨whole, rfl⟩ := mem_number.mp hwhole
      obtain ⟨fraction, rfl⟩ := mem_fraction.mp hfraction
      exact ⟨some ⟨whole, fraction⟩, List.append_assoc _ _ _⟩
  · rintro ⟨_ | ⟨whole, fraction⟩, rfl⟩
    · exact Or.inl rfl
    · exact Or.inr ⟨_, mem_number.mpr ⟨whole, rfl⟩, _, ⟨_, mem_fraction.mpr ⟨fraction, rfl⟩, _, rfl,
        rfl⟩, (List.append_assoc _ _ _).symm⟩

theorem mem_datePattern : s ∈ datePattern ↔ ∃ days : DaySpan, days.text = s := by
  simp only [datePattern, Language.mem_mul, mem_component]
  constructor
  · rintro ⟨_, ⟨years, rfl⟩, _, ⟨_, ⟨months, rfl⟩, _, ⟨_, ⟨weeks, rfl⟩, _, ⟨days, rfl⟩, rfl⟩, rfl⟩,
      rfl⟩
    exact ⟨⟨years, months, weeks, days⟩, rfl⟩
  · rintro ⟨⟨years, months, weeks, days⟩, rfl⟩
    exact ⟨_, ⟨years, rfl⟩, _, ⟨_, ⟨months, rfl⟩, _, ⟨_, ⟨weeks, rfl⟩, _, ⟨days, rfl⟩, rfl⟩, rfl⟩,
      rfl⟩

theorem mem_clockPattern : s ∈ clockPattern ↔ ∃ clock : ClockSpan, clock.text = s := by
  simp only [clockPattern, Language.mem_mul, mem_component, mem_seconds]
  constructor
  · rintro ⟨_, ⟨hours, rfl⟩, _, ⟨_, ⟨minutes, rfl⟩, _, ⟨seconds, rfl⟩, rfl⟩, rfl⟩
    exact ⟨⟨hours, minutes, seconds⟩, rfl⟩
  · rintro ⟨⟨hours, minutes, seconds⟩, rfl⟩
    exact ⟨_, ⟨hours, rfl⟩, _, ⟨_, ⟨minutes, rfl⟩, _, ⟨seconds, rfl⟩, rfl⟩, rfl⟩

/-- The pattern alone asks for no component, neither at all nor behind a `T`. -/
theorem mem_durationPattern : s ∈ durationPattern ↔ ∃ days : DaySpan, s = 'P' :: days.text ∨
    ∃ clock : ClockSpan, s = 'P' :: (days.text ++ 'T' :: clock.text) := by
  simp only [durationPattern, Language.mem_mul, mem_datePattern, mem_perhaps, mem_letter,
    mem_clockPattern]
  constructor
  · rintro ⟨_, rfl, _, ⟨_, ⟨days, rfl⟩, _, rfl | ⟨_, rfl, _, ⟨clock, rfl⟩, rfl⟩, rfl⟩, rfl⟩
    · exact ⟨days, Or.inl (by simp)⟩
    · exact ⟨days, Or.inr ⟨clock, rfl⟩⟩
  · rintro ⟨days, rfl | ⟨clock, rfl⟩⟩
    · exact ⟨_, rfl, _, ⟨_, ⟨days, rfl⟩, _, Or.inl rfl, rfl⟩, by simp⟩
    · exact ⟨_, rfl, _, ⟨_, ⟨days, rfl⟩, _, Or.inr ⟨_, rfl, _, ⟨clock, rfl⟩, rfl⟩, rfl⟩, rfl⟩

/-! ### Texts without a `T` -/

theorem Numeral.not_mem_digits (n : Numeral) {c : Char} (hc : isDecimalDigit c = false) :
    c ∉ n.digits := fun hmem => by
  rw [n.decimal c hmem] at hc
  cases hc

theorem Numeral.not_mem_withUnit {c : Char} (hc : isDecimalDigit c = false) (hunit : c ≠ unit)
    (n : Option Numeral) : c ∉ withUnit unit n := by
  cases n with
  | none => exact List.not_mem_nil
  | some n => simp [withUnit, n.not_mem_digits hc, hunit]

theorem Seconds.not_mem_written (s : Option Seconds) : 'T' ∉ written s := by
  have hT : isDecimalDigit 'T' = false := by decide
  match s with
  | none => exact List.not_mem_nil
  | some ⟨whole, none⟩ => simp [written, Numeral.asFraction, whole.not_mem_digits hT]
  | some ⟨whole, some fraction⟩ =>
    simp [written, Numeral.asFraction, whole.not_mem_digits hT, fraction.not_mem_digits hT]

theorem DaySpan.not_mem_text (d : DaySpan) : 'T' ∉ d.text := by
  simp [text, Numeral.not_mem_withUnit (c := 'T') (by decide)]

theorem ClockSpan.not_mem_text (c : ClockSpan) : 'T' ∉ c.text := by
  simp [text, Numeral.not_mem_withUnit (c := 'T') (by decide), Seconds.not_mem_written]

/-- Without the letter alone, and without a `T` at the end, the pattern asks for all that a duration
has to have. -/
theorem isDuration_iff_pattern :
    isDuration s = true ↔ s ∈ durationPattern ∧ s ≠ ['P'] ∧ s.getLast? ≠ some 'T' := by
  rw [isDuration_iff, mem_durationPattern]
  constructor
  · rintro ⟨days, ⟨rfl, hne⟩ | ⟨clock, rfl, hne⟩⟩
    · refine ⟨⟨days, Or.inl rfl⟩, by simpa using hne, fun hlast => ?_⟩
      simpa [days.not_mem_text] using List.mem_of_getLast? hlast
    · refine ⟨⟨days, Or.inr ⟨clock, rfl⟩⟩, by simp, fun hlast => ?_⟩
      rw [← List.cons_append, List.getLast?_append_of_ne_nil _ (List.cons_ne_nil _ _),
        List.getLast?_cons_of_ne_nil hne] at hlast
      exact clock.not_mem_text (List.mem_of_getLast? hlast)
  · rintro ⟨⟨days, rfl | ⟨clock, rfl⟩⟩, hne, hlast⟩
    · exact ⟨days, Or.inl ⟨rfl, by simpa using hne⟩⟩
    · refine ⟨days, Or.inr ⟨clock, rfl, ?_⟩⟩
      intro hnil
      rw [hnil, ← List.cons_append, List.getLast?_append_of_ne_nil _ (List.cons_ne_nil _ _)] at hlast
      exact hlast rfl

end Temporal

open Temporal

theorem Schema.accepts_duration {s : Text} :
    (primitive .duration).violations (.string s) = [] ↔ isDuration s = true := by
  cases h : isDuration s <;> simp [violations, outerViolations, outerFault?, Primitive.fault?, h]

/-- The schema of durations accepts exactly the texts of durations. They are also the texts of its
pattern that are more than the letter in front and do not end with a `T`. -/
theorem Schema.durations_by_form (s : Text) :
    ((primitive .duration).violations (.string s) = [] ↔ ∃ d : Duration, d.text = s) ∧
    ((primitive .duration).violations (.string s) = [] ↔
      s ∈ durationPattern ∧ s ≠ ['P'] ∧ s.getLast? ≠ some 'T') :=
  ⟨accepts_duration.trans isDuration_iff_exists, accepts_duration.trans isDuration_iff_pattern⟩

/-- Months and minutes have the same letter, and digits may be those of any script. -/
example : (Schema.primitive .duration).violations (.string "P5MT\u0665M0.5S") = [] ∧
    (Schema.primitive .duration).violations (.string "P5MT") ≠ [] := by
  decide +kernel

end TwinGraph
