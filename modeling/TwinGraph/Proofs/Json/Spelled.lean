import Mathlib.Data.List.Induction
import TwinGraph.Proofs.Json.Numbers
import TwinGraph.Proofs.Json.Written

/-! All texts of a value, however its numbers and strings are spelled, with blanks between the tokens
and with fields that come again. Only such texts are read. -/
namespace TwinGraph

/-- Each name once, in the order in which they first come, with the value that comes last. -/
structure Fields.Gathers {α : Type} (entries fields : Fields α) : Prop where
  names : fields.names = (names entries).eraseDups
  last : ∀ name, fields.find? name = find? name entries.reverse

theorem Fields.eraseDups_concat (names : List Text) (name : Text) : (names ++ [name]).eraseDups =
    if name ∈ names then names.eraseDups else names.eraseDups ++ [name] := by
  rw [List.eraseDups_append]
  by_cases hmem : name ∈ names
  · have hagain : [name].removeAll names = [] := by simp [List.removeAll, hmem]
    rw [if_pos hmem, hagain, List.eraseDups_nil, List.append_nil]
  · have hfirst : [name].removeAll names = [name] := by simp [List.removeAll, hmem]
    rw [if_neg hmem, hfirst]
    rfl

theorem Fields.nodup_eraseDups (names : List Text) : names.eraseDups.Nodup := by
  induction names using List.reverseRecOn with
  | nil => exact List.nodup_nil
  | append_singleton names name ih =>
    rw [eraseDups_concat]
    split
    · exact ih
    · next hmem =>
      refine List.nodup_append.mpr ⟨ih, List.pairwise_singleton _ name, fun other hother _ hname => ?_⟩
      rw [List.mem_singleton.mp hname]
      rintro rfl
      exact hmem (List.mem_eraseDups.mp hother)

theorem Fields.gathers_ofList {α : Type} (entries : Fields α) : Gathers entries (ofList entries) := by
  induction entries using List.reverseRecOn with
  | nil => exact ⟨rfl, fun _ => rfl⟩
  | append_singleton entries entry ih =>
    obtain ⟨name, value⟩ := entry
    have hput : ofList (entries ++ [(name, value)]) = put name value (ofList entries) := by
      rw [ofList, List.foldl_append]
      rfl
    have hnames : names (entries ++ [(name, value)]) = names entries ++ [name] := List.map_append
    refine ⟨?_, fun other => ?_⟩
    · simp only [hput, names_put, ih.names, hnames, eraseDups_concat, List.mem_eraseDups]
    · rw [hput, List.reverse_append, List.reverse_singleton, List.singleton_append, find?]
      split
      · next hname =>
        rw [← hname]
        exact find?_put_self name value _
      · next hname => rw [find?_put_of_ne (Ne.symm hname), ih.last]

namespace Fields.Gathers

variable {α : Type} {entries fields : Fields α}

theorem nodup (h : Gathers entries fields) : fields.names.Nodup := by
  rw [h.names]
  exact nodup_eraseDups _

theorem mem_of_mem (h : Gathers entries fields) {field : Text × α} (hfield : field ∈ fields) :
    field ∈ entries := by
  have hfind := find?_of_mem h.nodup hfield
  rw [h.last] at hfind
  exact List.mem_reverse.mp (mem_of_find? hfind)

end Fields.Gathers

namespace Json

open Text (natValue)

/-! ### The grammar -/

def IsDigits (s : Text) : Prop := s ≠ [] ∧ ∀ c ∈ s, c.isDigit = true

inductive Fraction : Option Text → Text → Prop where
  | none : Fraction none []
  | places {digits} : IsDigits digits → Fraction (some digits) ('.' :: digits)

inductive Exponent : Option Int → Text → Prop where
  | none : Exponent none []
  | positive {e mark digits} : e = 'e' ∨ e = 'E' → mark = [] ∨ mark = ['+'] → IsDigits digits →
      Exponent (some (natValue digits)) (e :: mark ++ digits)
  | negative {e digits} : e = 'e' ∨ e = 'E' → IsDigits digits →
      Exponent (some (-natValue digits)) (e :: '-' :: digits)

/-- Digits with a sign in front, and perhaps a point and an exponent behind. -/
inductive Numeral : Number → Text → Prop where
  | whole {n negative digits} : Integral digits →
      Number.ofNumeral negative (natValue digits) = some n → Numeral n (sign negative ++ digits)
  | scaled {n negative digits fraction exponent point tail} : Integral digits →
      Fraction fraction point → Exponent exponent tail → point ++ tail ≠ [] →
      Number.ofDecimal negative (natValue (digits ++ fraction.getD []))
        (exponent.getD 0 - (fraction.getD []).length) = some n →
      Numeral n (sign negative ++ digits ++ (point ++ tail))

inductive Quoted : Text → Text → Prop where
  | nil : Quoted [] []
  | plain {c text body} : c ≠ '"' → c ≠ '\\' → 0x20 ≤ c.toNat → Quoted text body →
      Quoted (c :: text) (c :: body)
  | escape {c e text body} : unescape e = some c → Quoted text body →
      Quoted (c :: text) ('\\' :: e :: body)
  | unit {a b c d unit text body} : unitValue a b c d = some unit →
      ¬ (0xd800 ≤ unit ∧ unit < 0xe000) → Quoted text body →
      Quoted (Char.ofNat unit :: text) ('\\' :: 'u' :: a :: b :: c :: d :: body)
  | pair {a b c d a' b' c' d' high low text body} : unitValue a b c d = some high →
      0xd800 ≤ high ∧ high < 0xdc00 → unitValue a' b' c' d' = some low →
      0xdc00 ≤ low ∧ low < 0xe000 → Quoted text body →
      Quoted (Char.ofNat (0x10000 + (high - 0xd800) * 0x400 + (low - 0xdc00)) :: text)
        ('\\' :: 'u' :: a :: b :: c :: d :: '\\' :: 'u' :: a' :: b' :: c' :: d' :: body)

/-- A name in quotes, with gaps around it. -/
inductive Key : Text → Text → Prop where
  | key {name body front back} : Gap front → Quoted name body → Gap back →
      Key name (front ++ '"' :: body ++ '"' :: back)

/-- A field of an object where it is spelled, with the texts of its key and of its value. -/
structure Member where
  name : Text
  value : Json
  key : Text
  valueText : Text

namespace Member

def field (m : Member) : Text × Json := (m.name, m.value)

def text (m : Member) : Text := m.key ++ ':' :: m.valueText

end Member

inductive Spelled : Json → Text → Prop where
  | null : Spelled null "null"
  | true : Spelled (bool true) "true"
  | false : Spelled (bool false) "false"
  | number {n s} : Numeral n s → Spelled (number n) s
  | string {text body} : Quoted text body → Spelled (string text) ('"' :: body ++ ['"'])
  | array {gap} {parts : List (Json × Text)} : Gap gap →
      (∀ part ∈ parts, Spelled part.1 part.2) →
      Spelled (array (parts.map (·.1)))
        ('[' :: gap ++ (Text.separated "," (parts.map (·.2)) ++ [']']))
  | object {fields gap} {members : List Member} : Gap gap → (∀ m ∈ members, Key m.name m.key) →
      (∀ m ∈ members, Spelled m.value m.valueText) →
      Fields.Gathers (members.map Member.field) fields →
      Spelled (object fields)
        ('\x7b' :: gap ++ (Text.separated "," (members.map Member.text) ++ ['\x7d']))
  | padded {j front s back} : Gap front → Spelled j s → Gap back → Spelled j (front ++ s ++ back)

/-! ### What is read -/

theorem gap_skipSpace (s : Text) : ∃ gap, Gap gap ∧ s = gap ++ skipSpace s :=
  ⟨s.takeWhile isSpace, fun c hc => List.all_eq_true.mp List.all_takeWhile c hc,
    List.takeWhile_append_dropWhile.symm⟩

theorem Spelled.behind {j : Json} {gap s : Text} (hgap : Gap gap) (h : Spelled j s) :
    Spelled j (gap ++ s) := by
  have hpadded := Spelled.padded hgap h gap_nil
  rwa [List.append_nil] at hpadded

theorem Spelled.before {j : Json} {gap s : Text} (h : Spelled j s) (hgap : Gap gap) :
    Spelled j (s ++ gap) := by
  have hpadded := Spelled.padded gap_nil h hgap
  rwa [List.nil_append] at hpadded

theorem isDigits_readDigits {s digits rest : Text} (h : readDigits s = some (digits, rest)) :
    s = digits ++ rest ∧ IsDigits digits := by
  unfold readDigits at h
  dsimp only at h
  split at h
  · cases h
  · next hne =>
    cases h
    exact ⟨List.takeWhile_append_dropWhile.symm, fun hnil => hne (by rw [hnil]; rfl),
      fun c hc => List.all_eq_true.mp List.all_takeWhile c hc⟩

theorem integral_readInteger {s digits rest : Text} (h : readInteger s = some (digits, rest)) :
    s = digits ++ rest ∧ Integral digits := by
  unfold readInteger at h
  split at h
  · cases h
    exact ⟨rfl, List.forall_mem_singleton.mpr (by decide), by decide, Or.inl rfl⟩
  · next hzero =>
    obtain ⟨rfl, hne, hdigit⟩ := isDigits_readDigits h
    refine ⟨rfl, hdigit, hne, Or.inr fun hhead => ?_⟩
    obtain ⟨digits', rfl⟩ := List.head?_eq_some_iff.mp hhead
    exact hzero _ rfl

theorem fraction_readFraction {s rest : Text} {fraction : Option Text}
    (h : readFraction s = some (fraction, rest)) :
    ∃ point, s = point ++ rest ∧ Fraction fraction point := by
  unfold readFraction at h
  split at h
  · obtain ⟨⟨digits, rest'⟩, hdigits, h⟩ := Option.map_eq_some_iff.mp h
    cases h
    obtain ⟨rfl, hall⟩ := isDigits_readDigits hdigits
    exact ⟨_, rfl, .places hall⟩
  · cases h
    exact ⟨[], rfl, .none⟩

theorem exponent_readSigned {e : Char} (he : e = 'e' ∨ e = 'E') {s rest : Text} {power : Int}
    (h : readSigned s = some (power, rest)) :
    ∃ tail, e :: s = tail ++ rest ∧ Exponent (some power) tail := by
  unfold readSigned at h
  split at h
  all_goals
    obtain ⟨⟨digits, rest'⟩, hdigits, h⟩ := Option.map_eq_some_iff.mp h
    cases h
    obtain ⟨rfl, hall⟩ := isDigits_readDigits hdigits
  · exact ⟨_, rfl, .negative he hall⟩
  · exact ⟨_, rfl, .positive he (Or.inr rfl) hall⟩
  · exact ⟨_, rfl, .positive he (Or.inl rfl) hall⟩

theorem exponent_readExponent {s rest : Text} {exponent : Option Int}
    (h : readExponent s = some (exponent, rest)) :
    ∃ tail, s = tail ++ rest ∧ Exponent exponent tail := by
  unfold readExponent at h
  split at h
  · split at h
    · next he =>
      obtain ⟨⟨power, rest'⟩, hpower, h⟩ := Option.map_eq_some_iff.mp h
      cases h
      exact exponent_readSigned he hpower
    · cases h
      exact ⟨[], rfl, .none⟩
  · cases h
    exact ⟨[], rfl, .none⟩

theorem numeral_readUnsigned {negative : Bool} {s rest : Text} {n : Number}
    (h : readUnsigned negative s = some (n, rest)) :
    ∃ t, s = t ++ rest ∧ Numeral n (sign negative ++ t) := by
  obtain ⟨⟨digits, s₁⟩, hdigits, hrest⟩ := Option.bind_eq_some_iff.mp h
  obtain ⟨⟨fraction, s₂⟩, hfraction, hrest⟩ := Option.bind_eq_some_iff.mp hrest
  obtain ⟨⟨exponent, s₃⟩, hexponent, hrest⟩ := Option.bind_eq_some_iff.mp hrest
  obtain ⟨hs, hintegral⟩ := integral_readInteger hdigits
  obtain ⟨point, hs₁, hpoint⟩ := fraction_readFraction hfraction
  obtain ⟨tail, hs₂, htail⟩ := exponent_readExponent hexponent
  have hall : s = digits ++ (point ++ tail) ++ s₃ := by
    rw [hs, hs₁, hs₂, List.append_assoc, List.append_assoc]
  dsimp only at hrest
  split at hrest
  · next hplain =>
    obtain ⟨value, hvalue, hrest⟩ := Option.bind_eq_some_iff.mp hrest
    cases hrest
    rw [Bool.and_eq_true, Option.isNone_iff_eq_none, Option.isNone_iff_eq_none] at hplain
    obtain ⟨rfl, rfl⟩ := hplain
    cases hpoint
    cases htail
    exact ⟨_, hall, by simpa using Numeral.whole hintegral hvalue⟩
  · next hscaled =>
    obtain ⟨value, hvalue, hrest⟩ := Option.bind_eq_some_iff.mp hrest
    cases hrest
    refine ⟨_, hall, ?_⟩
    have hne : point ++ tail ≠ [] := by
      intro hnil
      obtain ⟨rfl, rfl⟩ := List.append_eq_nil_iff.mp hnil
      cases hpoint
      cases htail
      exact hscaled rfl
    rw [← List.append_assoc]
    exact .scaled hintegral hpoint htail hne hvalue

theorem numeral_readNumber {s rest : Text} {n : Number} (h : readNumber s = some (n, rest)) :
    ∃ t, s = t ++ rest ∧ Numeral n t := by
  unfold readNumber at h
  split at h
  next negative s₀ hsign =>
    obtain ⟨t, rfl, ht⟩ := @numeral_readUnsigned negative s₀ _ _ h
    refine ⟨_, ?_, ht⟩
    split at hsign
    · cases hsign
      rfl
    · cases hsign
      rfl

theorem quoted_readString {s text rest : Text} (h : readString s = some (text, rest)) :
    ∃ body, s = body ++ '"' :: rest ∧ Quoted text body := by
  fun_induction readString s generalizing text rest
  case case2 =>
    cases h
    exact ⟨[], rfl, .nil⟩
  case case6 hunit hhigh m v a' b' c' d' s hmark low hlow hrange _ ih =>
    obtain ⟨⟨text', rest'⟩, hread, h⟩ := Option.map_eq_some_iff.mp h
    cases h
    obtain ⟨rfl, rfl⟩ := hmark
    obtain ⟨body, rfl, hbody⟩ := ih hread
    exact ⟨_, rfl, .pair hunit hhigh hlow hrange hbody⟩
  case case11 hunit hhigh hlow _ ih =>
    obtain ⟨⟨text', rest'⟩, hread, h⟩ := Option.map_eq_some_iff.mp h
    cases h
    obtain ⟨body, rfl, hbody⟩ := ih hread
    exact ⟨_, rfl, .unit hunit (by omega) hbody⟩
  case case14 hescape _ ih =>
    obtain ⟨⟨text', rest'⟩, hread, h⟩ := Option.map_eq_some_iff.mp h
    cases h
    obtain ⟨body, rfl, hbody⟩ := ih hread
    exact ⟨_, rfl, .escape hescape hbody⟩
  case case16 hquote hslash hcontrol ih =>
    obtain ⟨⟨text', rest'⟩, hread, h⟩ := Option.map_eq_some_iff.mp h
    cases h
    obtain ⟨body, rfl, hbody⟩ := ih hread
    exact ⟨_, rfl, .plain hquote hslash (by omega) hbody⟩
  all_goals cases h

theorem separated_cons {part : Text} {parts : List Text} (hne : parts ≠ []) (rest : Text) :
    Text.separated "," (part :: parts) ++ rest =
      part ++ ',' :: (Text.separated "," parts ++ rest) := by
  rw [Text.separated, List.intercalate_cons_of_ne_nil hne, List.append_assoc, List.append_assoc]
  rfl

theorem separated_singleton (part rest : Text) : Text.separated "," [part] ++ rest = part ++ rest := by
  rw [Text.separated, List.intercalate_singleton]

/-- The items up to the bracket that closes, each with its text. -/
structure SpelledItems (items : List Json) (s rest : Text) (parts : List (Json × Text)) : Prop where
  items : items = parts.map (·.1)
  nonempty : parts ≠ []
  text : s = Text.separated "," (parts.map (·.2)) ++ ']' :: rest
  spelled : ∀ part ∈ parts, Spelled part.1 part.2

/-- The fields up to the brace that closes, each where it is spelled. -/
structure SpelledFields (entries : List (Text × Json)) (s rest : Text) (members : List Member) :
    Prop where
  entries : entries = members.map Member.field
  nonempty : members ≠ []
  text : s = Text.separated "," (members.map Member.text) ++ '\x7d' :: rest
  keys : ∀ m ∈ members, Key m.name m.key
  spelled : ∀ m ∈ members, Spelled m.value m.valueText

/-- What is read with the budget are texts of values. -/
structure Spells (budget : Nat) : Prop where
  value : ∀ {depth s j rest}, readValue budget depth s = some (j, rest) →
    ∃ t, s = t ++ rest ∧ Spelled j t
  items : ∀ {depth s items rest}, readItems budget depth s = some (items, rest) →
    ∃ parts, SpelledItems items s rest parts
  fields : ∀ {depth s entries rest}, readFields budget depth s = some (entries, rest) →
    ∃ members, SpelledFields entries s rest members

namespace Spells

variable {budget depth : Nat} {s rest : Text}

theorem array_part (ih : Spells budget) {j : Json}
    (h : (match skipSpace s with
      | ']' :: rest => some (array [], rest)
      | s => (readItems budget depth s).map fun (items, rest) => (array items, rest)) =
        some (j, rest)) : ∃ t, '[' :: s = t ++ rest ∧ Spelled j t := by
  obtain ⟨gap, hgap, hs⟩ := gap_skipSpace s
  split at h
  · next rest' hclose =>
    cases h
    refine ⟨_, ?_, @Spelled.array gap [] hgap nofun⟩
    rw [hs, hclose]
    simp [Text.separated]
  · obtain ⟨⟨items, rest'⟩, hread, h⟩ := Option.map_eq_some_iff.mp h
    cases h
    obtain ⟨parts, rfl, -, htext, hparts⟩ := ih.items hread
    refine ⟨_, ?_, .array hgap hparts⟩
    rw [hs, htext]
    simp

theorem object_part (ih : Spells budget) {j : Json}
    (h : (match skipSpace s with
      | '}' :: rest => some (object [], rest)
      | s => (readFields budget depth s).map fun (fields, rest) =>
          (object (Fields.ofList fields), rest)) = some (j, rest)) :
    ∃ t, '{' :: s = t ++ rest ∧ Spelled j t := by
  obtain ⟨gap, hgap, hs⟩ := gap_skipSpace s
  split at h
  · next rest' hclose =>
    cases h
    refine ⟨_, ?_, @Spelled.object _ gap [] hgap nofun nofun (Fields.gathers_ofList [])⟩
    rw [hs, hclose]
    simp [Text.separated]
  · obtain ⟨⟨entries, rest'⟩, hread, h⟩ := Option.map_eq_some_iff.mp h
    cases h
    obtain ⟨members, rfl, -, htext, hkeys, hvalues⟩ := ih.fields hread
    refine ⟨_, ?_, .object hgap hkeys hvalues (Fields.gathers_ofList _)⟩
    rw [hs, htext]
    simp

theorem value_succ (ih : Spells budget) {j : Json}
    (h : readValue (budget + 1) depth s = some (j, rest)) : ∃ t, s = t ++ rest ∧ Spelled j t := by
  rw [readValue] at h
  obtain ⟨gap, hgap, hs⟩ := gap_skipSpace s
  have hbehind : (∃ t, skipSpace s = t ++ rest ∧ Spelled j t) → ∃ t, s = t ++ rest ∧ Spelled j t := by
    rintro ⟨t, hskip, ht⟩
    refine ⟨gap ++ t, ?_, ht.behind hgap⟩
    rw [List.append_assoc, ← hskip]
    exact hs
  apply hbehind
  cases hskip : skipSpace s with
  | nil =>
    rw [hskip] at h
    cases h
  | cons c s' =>
    rw [hskip] at h
    dsimp only at h
    split at h
    · next hquote =>
      obtain ⟨⟨text, rest'⟩, hread, h⟩ := Option.map_eq_some_iff.mp h
      cases h
      obtain ⟨body, rfl, hbody⟩ := quoted_readString hread
      refine ⟨_, ?_, .string hbody⟩
      simp [hquote]
    split at h
    · next hbracket =>
      rw [hbracket]
      split at h
      · cases h
      · exact ih.array_part h
    split at h
    · next hbrace =>
      rw [hbrace]
      split at h
      · cases h
      · exact ih.object_part h
    split at h
    · next hword =>
      cases h
      exact ⟨_, Text.after?_eq_some_iff.mp hword, .null⟩
    split at h
    · next hword =>
      cases h
      exact ⟨_, Text.after?_eq_some_iff.mp hword, .true⟩
    split at h
    · next hword =>
      cases h
      exact ⟨_, Text.after?_eq_some_iff.mp hword, .false⟩
    obtain ⟨⟨n, rest'⟩, hread, h⟩ := Option.map_eq_some_iff.mp h
    cases h
    obtain ⟨t, ht, hnumeral⟩ := numeral_readNumber hread
    exact ⟨t, ht, .number hnumeral⟩

theorem value_mark (ih : Spells budget) {j : Json} {t : Text} {c : Char}
    (h : readValue budget depth s = some (j, t)) (hmark : skipSpace t = c :: rest) :
    ∃ text, s = text ++ c :: rest ∧ Spelled j text := by
  obtain ⟨text, rfl, htext⟩ := ih.value h
  obtain ⟨gap, hgap, ht⟩ := gap_skipSpace t
  refine ⟨text ++ gap, ?_, htext.before hgap⟩
  rw [List.append_assoc, ← hmark, ← ht]

theorem items_succ (ih : Spells budget) {items : List Json}
    (h : readItems (budget + 1) depth s = some (items, rest)) :
    ∃ parts, SpelledItems items s rest parts := by
  rw [readItems] at h
  split at h
  · cases h
  next item s₁ hvalue =>
    split at h
    · next s₂ hcomma =>
      obtain ⟨⟨items, rest'⟩, hread, h⟩ := Option.map_eq_some_iff.mp h
      cases h
      obtain ⟨text, rfl, htext⟩ := ih.value_mark hvalue hcomma
      obtain ⟨parts, rfl, hne, rfl, hparts⟩ := ih.items hread
      refine ⟨(item, text) :: parts, rfl, List.cons_ne_nil _ _, ?_,
        List.forall_mem_cons.mpr ⟨htext, hparts⟩⟩
      exact (separated_cons (mt List.map_eq_nil_iff.mp hne) _).symm
    · next s₂ hclose =>
      cases h
      obtain ⟨text, rfl, htext⟩ := ih.value_mark hvalue hclose
      exact ⟨[(item, text)], rfl, List.cons_ne_nil _ _, (separated_singleton text _).symm,
        List.forall_mem_singleton.mpr htext⟩
    · cases h

theorem key_mark {name s₁ s₂ s₃ : Text} (hquote : skipSpace s = '"' :: s₁)
    (hname : readString s₁ = some (name, s₂)) (hcolon : skipSpace s₂ = ':' :: s₃) :
    ∃ key, s = key ++ ':' :: s₃ ∧ Key name key := by
  obtain ⟨front, hfront, hs⟩ := gap_skipSpace s
  obtain ⟨body, rfl, hbody⟩ := quoted_readString hname
  obtain ⟨back, hback, hs₂⟩ := gap_skipSpace s₂
  refine ⟨_, ?_, .key hfront hbody hback⟩
  rw [hs, hquote, hs₂, hcolon]
  simp

theorem fields_succ (ih : Spells budget) {entries : List (Text × Json)}
    (h : readFields (budget + 1) depth s = some (entries, rest)) :
    ∃ members, SpelledFields entries s rest members := by
  rw [readFields] at h
  split at h
  · next s₁ hquote =>
    split at h
    · cases h
    next name s₂ hname =>
      split at h
      · next s₃ hcolon =>
        obtain ⟨key, rfl, hkey⟩ := key_mark hquote hname hcolon
        split at h
        · cases h
        next value s₄ hvalue =>
          split at h
          · next s₅ hcomma =>
            obtain ⟨⟨entries, rest'⟩, hread, h⟩ := Option.map_eq_some_iff.mp h
            cases h
            obtain ⟨text, rfl, htext⟩ := ih.value_mark hvalue hcomma
            obtain ⟨members, rfl, hne, rfl, hkeys, hvalues⟩ := ih.fields hread
            refine ⟨⟨name, value, key, text⟩ :: members, rfl, List.cons_ne_nil _ _, ?_,
              List.forall_mem_cons.mpr ⟨hkey, hkeys⟩, List.forall_mem_cons.mpr ⟨htext, hvalues⟩⟩
            rw [List.map_cons, separated_cons (mt List.map_eq_nil_iff.mp hne)]
            simp [Member.text]
          · next s₅ hclose =>
            cases h
            obtain ⟨text, rfl, htext⟩ := ih.value_mark hvalue hclose
            refine ⟨[⟨name, value, key, text⟩], rfl, List.cons_ne_nil _ _, ?_,
              List.forall_mem_singleton.mpr hkey, List.forall_mem_singleton.mpr htext⟩
            rw [List.map_singleton, separated_singleton]
            simp [Member.text]
          · cases h
      · cases h
  · cases h

end Spells

theorem spells (budget : Nat) : Spells budget := by
  -- Each of the three readers calls the others with a smaller budget, so they go together.
  induction budget with
  | zero =>
    refine ⟨fun h => ?_, fun h => ?_, fun h => ?_⟩
    · rw [readValue] at h
      cases h
    · rw [readItems] at h
      cases h
    · rw [readFields] at h
      cases h
  | succ budget ih => exact ⟨ih.value_succ, ih.items_succ, ih.fields_succ⟩

/-- Only texts of a value are read as the value. -/
theorem spelled_of_read {depth : Nat} {s : Text} {j : Json} (h : Json.read depth s = some j) :
    Spelled j s := by
  unfold Json.read at h
  split at h
  · next value rest hvalue =>
    split at h
    · next hempty =>
      cases h
      obtain ⟨t, rfl, ht⟩ := (spells _).value hvalue
      obtain ⟨gap, hgap, hrest⟩ := gap_skipSpace rest
      rw [List.isEmpty_iff.mp hempty, List.append_nil] at hrest
      rw [hrest]
      exact ht.before hgap
    · cases h
  · cases h

end Json
end TwinGraph
