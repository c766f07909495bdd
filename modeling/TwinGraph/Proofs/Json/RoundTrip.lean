import TwinGraph.Proofs.Json.Numbers
import TwinGraph.Proofs.Json.SameValue
import TwinGraph.Proofs.Json.Written

/-! A value that is written is read again as it was, with blanks behind commas and colons or
without. -/
namespace TwinGraph.Json

theorem readString_plain {c : Char} (s : Text) (hquote : c ≠ '"') (hslash : c ≠ '\\')
    (hspace : ¬ c.toNat < 0x20) :
    readString (c :: s) = (readString s).map fun (text, rest) => (c :: text, rest) := by
  conv_lhs => unfold readString
  rw [if_neg hquote, if_neg hslash, if_neg hspace]

theorem readString_escape {c e : Char} (s : Text) (hu : e ≠ 'u') (h : unescape e = some c) :
    readString ('\\' :: e :: s) = (readString s).map fun (text, rest) => (c :: text, rest) := by
  conv_lhs => unfold readString
  rw [if_neg (by decide), if_pos rfl]
  dsimp only
  rw [if_neg hu, h]

theorem readString_unit {a b c d : Char} {unit : Nat} (s : Text)
    (h : unitValue a b c d = some unit) (hplain : unit < 0xd800) :
    readString ('\\' :: 'u' :: a :: b :: c :: d :: s) =
      (readString s).map fun (text, rest) => (Char.ofNat unit :: text, rest) := by
  conv_lhs => unfold readString
  rw [if_neg (by decide), if_pos rfl]
  dsimp only
  rw [if_pos rfl, h]
  dsimp only
  rw [if_neg (by omega), if_neg (by omega)]

theorem unitValue_control {n : Nat} (h : n < 0x20) :
    unitValue '0' '0' (hexDigit (n / 16)) (hexDigit (n % 16)) = some n := by
  have hall : ∀ n < 0x20, unitValue '0' '0' (hexDigit (n / 16)) (hexDigit (n % 16)) = some n := by
    decide
  exact hall n h

theorem readString_escapeChar (c : Char) (s : Text) :
    readString (escapeChar c ++ s) =
      (readString s).map fun (text, rest) => (c :: text, rest) := by
  unfold escapeChar
  split
  · next h =>
    subst h
    exact readString_escape s (by decide) rfl
  · next hquote =>
    split
    · next h =>
      subst h
      exact readString_escape s (by decide) rfl
    · next hslash =>
      split
      · next h =>
        subst h
        exact readString_escape s (by decide) rfl
      · split
        · next h =>
          subst h
          exact readString_escape s (by decide) rfl
        · split
          · next h =>
            subst h
            exact readString_escape s (by decide) rfl
          · split
            · next h =>
              subst h
              exact readString_escape s (by decide) rfl
            · split
              · next h =>
                subst h
                exact readString_escape s (by decide) rfl
              · split
                · next h =>
                  have hunit := readString_unit s (unitValue_control h) (by omega)
                  rw [Char.ofNat_toNat] at hunit
                  exact hunit
                · next h => exact readString_plain s hquote hslash h

theorem readString_renderString (s rest : Text) :
    readString (s.flatMap escapeChar ++ '"' :: rest) = some (s, rest) := by
  induction s with
  | nil =>
    show readString ('"' :: rest) = _
    unfold readString
    rw [if_pos rfl]
  | cons c s ih =>
    rw [List.flatMap_cons, List.append_assoc, readString_escapeChar, ih]
    rfl

mutual

def nesting : Json → Nat
  | array items => nestingItems items + 1
  | object fields => nestingFields fields + 1
  | _ => 0

def nestingItems : List Json → Nat
  | [] => 0
  | item :: items => max item.nesting (nestingItems items)

def nestingFields : List (Text × Json) → Nat
  | [] => 0
  | (_, value) :: fields => max value.nesting (nestingFields fields)

end

theorem readInteger_eq_none {c : Char} {s : Text} (h : c.isDigit = false) :
    readInteger (c :: s) = none := by
  unfold readInteger
  split
  · next heq =>
    rw [List.cons.injEq] at heq
    rw [heq.1] at h
    cases h
  · unfold readDigits
    dsimp only
    rw [List.takeWhile_cons_of_neg (by simp [h])]
    rfl

theorem head_of_readNumber {s rest : Text} {n : Number} (h : readNumber s = some (n, rest)) :
    ∃ c t, s = c :: t ∧ (c = '-' ∨ c.isDigit = true) := by
  cases s with
  | nil => cases h
  | cons c t =>
    refine ⟨c, t, rfl, ?_⟩
    by_contra hnot
    rw [not_or, Bool.not_eq_true] at hnot
    unfold readNumber at h
    split at h
    next heq =>
      split at heq
      · next heq' =>
        rw [List.cons.injEq] at heq'
        exact hnot.1 heq'.1
      · cases heq
        rw [readInteger_eq_none hnot.2] at h
        cases h

theorem head_number (n : Number) :
    ∃ c t, n.render = c :: t ∧ (c = '-' ∨ c.isDigit = true) := by
  have h : readNumber (n.render ++ []) = some (n, []) := readNumber_render n rfl
  rw [List.append_nil] at h
  exact head_of_readNumber h

/-- No text of a value starts with a space or with a bracket that closes. -/
theorem head_written {j : Json} {s : Text} (h : Spaced j s) :
    ∃ c t, s = c :: t ∧ isSpace c = false ∧ c ≠ ']' ∧ c ≠ '}' := by
  cases h with
  | null => exact ⟨'n', _, rfl, by decide⟩
  | bool b => cases b <;> exact ⟨_, _, rfl, by decide⟩
  | @number n m hm =>
    subst hm
    obtain ⟨c, t, hrender, hc⟩ := head_number n
    refine ⟨c, t, by rw [hrender, List.append_nil], ?_⟩
    rcases hc with rfl | hc
    · decide
    · refine ⟨?_, ?_, ?_⟩
      · unfold isSpace
        simp only [Bool.or_eq_false_iff, beq_eq_false_iff_ne]
        refine ⟨⟨⟨?_, ?_⟩, ?_⟩, ?_⟩ <;> (rintro rfl; exact absurd hc (by decide))
      · rintro rfl; exact absurd hc (by decide)
      · rintro rfl; exact absurd hc (by decide)
  | string s => exact ⟨'"', _, rfl, by decide⟩
  | array h => cases h <;> exact ⟨'[', _, rfl, by decide⟩
  | object h => cases h <;> exact ⟨'\x7b', _, rfl, by decide⟩

theorem skipSpace_cons {c : Char} (s : Text) (h : isSpace c = false) :
    skipSpace (c :: s) = c :: s :=
  List.dropWhile_cons_of_neg (by simp [h])

theorem skipSpace_gap {gap : Text} (h : Gap gap) (s : Text) : skipSpace (gap ++ s) = skipSpace s :=
  List.dropWhile_append_of_pos h

theorem Written.length_pos {j : Json} {s : Text} (h : Spaced j s) : 0 < s.length := by
  obtain ⟨c, t, rfl, -⟩ := head_written h
  exact Nat.succ_pos _

theorem readValue_gap (budget depth : Nat) {gap : Text} (h : Gap gap) (s : Text) :
    readValue budget depth (gap ++ s) = readValue budget depth s := by
  cases budget with
  | zero => rfl
  | succ budget =>
    unfold readValue
    rw [skipSpace_gap h]

theorem readItems_gap (budget depth : Nat) {gap : Text} (h : Gap gap) (s : Text) :
    readItems budget depth (gap ++ s) = readItems budget depth s := by
  cases budget with
  | zero => rfl
  | succ budget =>
    unfold readItems
    rw [readValue_gap budget depth h]

theorem readFields_gap (budget depth : Nat) {gap : Text} (h : Gap gap) (s : Text) :
    readFields budget depth (gap ++ s) = readFields budget depth s := by
  cases budget with
  | zero => rfl
  | succ budget =>
    unfold readFields
    rw [skipSpace_gap h]

theorem after?_of_head {c d : Char} (h : c ≠ d) (p s : Text) :
    Text.after? (d :: p) (c :: s) = none :=
  if_neg (Ne.symm h)

theorem readValue_number (budget depth : Nat) (n : Number) {rest : Text}
    (hrest : endsNumber rest = true) :
    readValue (budget + 1) depth (n.render ++ rest) = some (number n, rest) := by
  have hread := readNumber_render n hrest
  obtain ⟨d, u, htext, hspace, -⟩ := head_written (spaced_render (number n))
  obtain ⟨c, t, hrender, hc⟩ := head_number n
  obtain ⟨rfl, rfl⟩ : c = d ∧ t = u := List.cons.inj (hrender.symm.trans htext)
  have hskip := skipSpace_cons (t ++ rest) hspace
  rw [hrender, List.cons_append] at hread ⊢
  have hne : ∀ d : Char, d ≠ '-' → d.isDigit = false → c ≠ d := by
    rintro d hminus hdigit rfl
    rcases hc with rfl | hc
    · exact hminus rfl
    · rw [hdigit] at hc
      cases hc
  unfold readValue
  rw [hskip]
  dsimp only
  rw [if_neg (hne '"' (by decide) rfl), if_neg (hne '[' (by decide) rfl),
    if_neg (hne '\x7b' (by decide) rfl)]
  have hnull : Text.after? "null" (c :: (t ++ rest)) = none :=
    after?_of_head (hne 'n' (by decide) rfl) _ _
  have htrue : Text.after? "true" (c :: (t ++ rest)) = none :=
    after?_of_head (hne 't' (by decide) rfl) _ _
  have hfalse : Text.after? "false" (c :: (t ++ rest)) = none :=
    after?_of_head (hne 'f' (by decide) rfl) _ _
  rw [hnull, htrue, hfalse, hread]
  rfl

theorem readValue_array {budget depth : Nat} {s : Text} {c : Char} {t : Text} (hs : s = c :: t)
    (hspace : isSpace c = false) (hclose : c ≠ ']') :
    readValue (budget + 1) (depth + 1) ('[' :: s) =
      (readItems budget depth s).map fun (items, rest) => (array items, rest) := by
  subst hs
  have hskip := skipSpace_cons t hspace
  unfold readValue
  rw [skipSpace_cons _ (by decide)]
  dsimp only
  rw [if_neg (by decide), if_pos rfl, if_neg (Nat.succ_ne_zero depth), hskip]
  split
  · next heq =>
    rw [List.cons.injEq] at heq
    exact absurd heq.1 hclose
  · rfl

theorem readValue_object {budget depth : Nat} {s : Text} {c : Char} {t : Text} (hs : s = c :: t)
    (hspace : isSpace c = false) (hclose : c ≠ '\x7d') :
    readValue (budget + 1) (depth + 1) ('\x7b' :: s) =
      (readFields budget depth s).map fun (fields, rest) =>
        (object (Fields.ofList fields), rest) := by
  subst hs
  have hskip := skipSpace_cons t hspace
  unfold readValue
  rw [skipSpace_cons _ (by decide)]
  dsimp only
  rw [if_neg (by decide), if_neg (by decide), if_pos rfl, if_neg (Nat.succ_ne_zero depth), hskip]
  split
  · next heq =>
    rw [List.cons.injEq] at heq
    exact absurd heq.1 hclose
  · rfl

def readField (budget depth : Nat) (name s : Text) : Option (List (Text × Json) × Text) :=
  match readValue budget depth s with
  | none => none
  | some (value, s) =>
    match skipSpace s with
    | ',' :: s =>
      (readFields budget depth s).map fun (fields, rest) => ((name, value) :: fields, rest)
    | '\x7d' :: s => some ([(name, value)], s)
    | _ => none

theorem readFields_name {budget depth : Nat} {name s t : Text}
    (h : readString s = some (name, ':' :: t)) :
    readFields (budget + 1) depth ('"' :: s) = readField budget depth name t := by
  unfold readFields
  rw [skipSpace_cons s (by decide)]
  split
  · next heq =>
    obtain ⟨-, rfl⟩ := List.cons.inj heq
    rw [h]
    rfl
  · next hnot => exact absurd rfl (hnot s)

theorem readField_value {budget depth : Nat} {name s t : Text} {value : Json}
    (h : readValue budget depth s = some (value, t)) :
    readField budget depth name s =
      match skipSpace t with
      | ',' :: s =>
        (readFields budget depth s).map fun (fields, rest) => ((name, value) :: fields, rest)
      | '\x7d' :: s => some ([(name, value)], s)
      | _ => none := by
  unfold readField
  rw [h]

theorem endsNumber_listed {α : Type} {R : α → Text → Prop} {close : Char} {as : List α} {t : Text}
    (h : Listed R close as t) (hclose : close = ']' ∨ close = '\x7d') (rest : Text) :
    endsNumber (t ++ rest) = true := by
  cases h with
  | nil => rcases hclose with rfl | rfl <;> rfl
  | cons => rfl

/-- Whatever follows a text of the value, unless it continues a number, the value is read from
it. -/
def Reads (j : Json) : Prop :=
  ∀ (s : Text) (budget depth : Nat) (rest : Text), Spaced j s → 2 * s.length ≤ budget →
    j.nesting ≤ depth → endsNumber rest = true → readValue budget depth (s ++ rest) = some (j, rest)

theorem readItems_listed {item : Json} {items : List Json} {s t : Text} {budget depth : Nat}
    (hreads : ∀ j ∈ item :: items, j.Reads) (hs : Spaced item s) (ht : Listed Spaced ']' items t)
    (hbudget : 2 * (s.length + t.length) ≤ budget) (hdepth : nestingItems (item :: items) ≤ depth)
    (rest : Text) : readItems budget depth (s ++ (t ++ rest)) = some (item :: items, rest) := by
  induction items generalizing item s t budget with
  | nil =>
    have hlength := ht.length_pos
    obtain ⟨budget, rfl⟩ : ∃ b, budget = b + 1 := ⟨budget - 1, by omega⟩
    simp only [nestingItems] at hdepth
    have hvalue := hreads item List.mem_cons_self s budget depth (t ++ rest) hs (by omega)
      (by omega) (endsNumber_listed ht (Or.inl rfl) rest)
    unfold readItems
    rw [hvalue]
    cases ht
    rfl
  | cons next items ih =>
    have hlength := ht.length_pos
    obtain ⟨budget, rfl⟩ : ∃ b, budget = b + 1 := ⟨budget - 1, by omega⟩
    rw [nestingItems] at hdepth
    have hvalue := hreads item List.mem_cons_self s budget depth (t ++ rest) hs (by omega)
      (by omega) (endsNumber_listed ht (Or.inl rfl) rest)
    unfold readItems
    rw [hvalue]
    dsimp only
    cases ht with
    | @cons _ _ gap u v hgap hu hv =>
      simp only [List.length_append, List.length_cons] at hbudget
      have hmore := ih (fun j hj => hreads j (List.mem_cons_of_mem _ hj)) hu hv
        (show _ ≤ budget by omega) (by omega)
      have htext : ',' :: gap ++ u ++ v ++ rest = ',' :: (gap ++ (u ++ (v ++ rest))) := by simp
      rw [htext, skipSpace_cons _ (by decide)]
      show (readItems budget depth (gap ++ (u ++ (v ++ rest)))).map _ = _
      rw [readItems_gap _ _ hgap, hmore]
      rfl

theorem readFields_named {name : Text} {value : Json} {s t : Text} {budget depth : Nat}
    (hreads : value.Reads) (hs : Named Spaced (name, value) s)
    (hbudget : 2 * s.length ≤ budget) (hdepth : value.nesting ≤ depth)
    (ht : endsNumber t = true) :
    readFields (budget + 1) depth (s ++ t) =
      match skipSpace t with
      | ',' :: s =>
        (readFields budget depth s).map fun (fields, rest) => ((name, value) :: fields, rest)
      | '\x7d' :: s => some ([(name, value)], s)
      | _ => none := by
  cases hs with
  | @field _ _ gap u hgap hu =>
    have hvalue := hreads u budget depth t hu
      (by simp only [List.length_append, List.length_cons] at hbudget; omega) hdepth ht
    have hname := readString_renderString name (':' :: (gap ++ (u ++ t)))
    have htext : renderString name ++ ':' :: gap ++ u ++ t =
        '"' :: (name.flatMap escapeChar ++ '"' :: (':' :: (gap ++ (u ++ t)))) := by
      simp [renderString]
    rw [htext, readFields_name hname]
    exact readField_value ((readValue_gap _ _ hgap _).trans hvalue)

theorem readFields_listed {field : Text × Json} {fields : List (Text × Json)} {s t : Text}
    {budget depth : Nat} (hreads : ∀ f ∈ field :: fields, f.2.Reads)
    (hs : Named Spaced field s) (ht : Listed (Named Spaced) '\x7d' fields t)
    (hbudget : 2 * (s.length + t.length) ≤ budget)
    (hdepth : nestingFields (field :: fields) ≤ depth) (rest : Text) :
    readFields budget depth (s ++ (t ++ rest)) = some (field :: fields, rest) := by
  induction fields generalizing field s t budget with
  | nil =>
    have hlength := ht.length_pos
    obtain ⟨name, value⟩ := field
    obtain ⟨budget, rfl⟩ : ∃ b, budget = b + 1 := ⟨budget - 1, by omega⟩
    simp only [nestingFields] at hdepth
    have hvalue : value.Reads := hreads (name, value) List.mem_cons_self
    rw [readFields_named hvalue hs (by omega) (by omega)
      (endsNumber_listed ht (Or.inr rfl) rest)]
    cases ht
    rfl
  | cons next fields ih =>
    have hlength := ht.length_pos
    obtain ⟨name, value⟩ := field
    obtain ⟨budget, rfl⟩ : ∃ b, budget = b + 1 := ⟨budget - 1, by omega⟩
    rw [nestingFields] at hdepth
    have hvalue : value.Reads := hreads (name, value) List.mem_cons_self
    rw [readFields_named hvalue hs (by omega) (by omega)
      (endsNumber_listed ht (Or.inr rfl) rest)]
    cases ht with
    | @cons _ _ gap u v hgap hu hv =>
      simp only [List.length_append, List.length_cons] at hbudget
      have hmore := ih (fun f hf => hreads f (List.mem_cons_of_mem _ hf)) hu hv
        (show _ ≤ budget by omega) (by omega)
      have htext : ',' :: gap ++ u ++ v ++ rest = ',' :: (gap ++ (u ++ (v ++ rest))) := by simp
      rw [htext, skipSpace_cons _ (by decide)]
      show (readFields budget depth (gap ++ (u ++ (v ++ rest)))).map _ = _
      rw [readFields_gap _ _ hgap, hmore]
      rfl

theorem reads_array {items : List Json} (hreads : ∀ item ∈ items, item.Reads) :
    (array items).Reads := by
  intro s budget depth rest h hbudget hdepth _
  have hlength := h.length_pos
  obtain ⟨budget, rfl⟩ : ∃ b, budget = b + 1 := ⟨budget - 1, by omega⟩
  rw [nesting] at hdepth
  obtain ⟨depth, rfl⟩ : ∃ d, depth = d + 1 := ⟨depth - 1, by omega⟩
  cases h with
  | array h =>
    cases h with
    | nil => rfl
    | @cons item items u v hu hv =>
      simp only [List.length_append, List.length_cons] at hbudget
      obtain ⟨c, t, hhead, hspace, hclose, -⟩ := head_written hu
      have hread := readItems_listed hreads hu hv (show _ ≤ budget by omega)
        (show _ ≤ depth by omega) rest
      have htext : '[' :: u ++ v ++ rest = '[' :: (u ++ (v ++ rest)) := by simp
      have hfirst : u ++ (v ++ rest) = c :: (t ++ (v ++ rest)) := by rw [hhead]; rfl
      rw [htext, readValue_array hfirst hspace hclose, hread]
      rfl

theorem reads_object {fields : List (Text × Json)} (hnames : (Fields.names fields).Nodup)
    (hreads : ∀ field ∈ fields, field.2.Reads) : (object fields).Reads := by
  intro s budget depth rest h hbudget hdepth _
  have hlength := h.length_pos
  obtain ⟨budget, rfl⟩ : ∃ b, budget = b + 1 := ⟨budget - 1, by omega⟩
  rw [nesting] at hdepth
  obtain ⟨depth, rfl⟩ : ∃ d, depth = d + 1 := ⟨depth - 1, by omega⟩
  cases h with
  | object h =>
    cases h with
    | nil => rfl
    | @cons field fields u v hu hv =>
      simp only [List.length_append, List.length_cons] at hbudget
      have hread := readFields_listed hreads hu hv (show _ ≤ budget by omega)
        (show _ ≤ depth by omega) rest
      have hhead : ∃ t, u ++ (v ++ rest) = '"' :: t := by
        cases hu
        exact ⟨_, rfl⟩
      obtain ⟨t, hhead⟩ := hhead
      have htext : '\x7b' :: u ++ v ++ rest = '\x7b' :: (u ++ (v ++ rest)) := by simp
      rw [htext, readValue_object hhead (by decide) (by decide), hread, Option.map_some]
      dsimp only
      rw [Fields.ofList_of_nodup hnames]

mutual

theorem reads_of_wellFormed : (j : Json) → j.WellFormed → j.Reads
  | null, _ | bool true, _ | bool false, _ => by
    intro s budget depth rest h hbudget _ _
    have hlength := h.length_pos
    obtain ⟨budget, rfl⟩ : ∃ b, budget = b + 1 := ⟨budget - 1, by omega⟩
    cases h
    rfl
  | number n, _ => by
    intro s budget depth rest h hbudget _ hrest
    have hlength := h.length_pos
    obtain ⟨budget, rfl⟩ : ∃ b, budget = b + 1 := ⟨budget - 1, by omega⟩
    cases h with
    | number _ hm =>
      subst hm
      rw [List.append_nil]
      exact readValue_number budget depth n hrest
  | string text, _ => by
    intro s budget depth rest h hbudget _ _
    have hlength := h.length_pos
    obtain ⟨budget, rfl⟩ : ∃ b, budget = b + 1 := ⟨budget - 1, by omega⟩
    cases h
    have hread := readString_renderString text rest
    show (readString ((text.flatMap escapeChar ++ ['"']) ++ rest)).map _ = _
    rw [List.append_assoc, List.singleton_append, hread]
    rfl
  | array items, hw => reads_array (reads_of_wellFormedItems items hw)
  | object fields, hw => reads_object hw.1 (reads_of_wellFormedFields fields hw.2)

theorem reads_of_wellFormedItems : (items : List Json) → WellFormedItems items →
    ∀ item ∈ items, item.Reads
  | [], _ => fun _ h => absurd h List.not_mem_nil
  | item :: items, hw =>
    List.forall_mem_cons.mpr ⟨reads_of_wellFormed item hw.1, reads_of_wellFormedItems items hw.2⟩

theorem reads_of_wellFormedFields : (fields : List (Text × Json)) → WellFormedFields fields →
    ∀ field ∈ fields, field.2.Reads
  | [], _ => fun _ h => absurd h List.not_mem_nil
  | (_, value) :: fields, hw =>
    List.forall_mem_cons.mpr ⟨reads_of_wellFormed value hw.1, reads_of_wellFormedFields fields hw.2⟩

end

/-- A value is read from each of its texts, as long as the reader may go as deep as it is nested. -/
theorem read_written {j : Json} {s : Text} (hw : j.WellFormed) (hs : Spaced j s) {depth : Nat}
    (hdepth : j.nesting ≤ depth) : read depth s = some j := by
  have h := reads_of_wellFormed j hw s (2 * s.length + 2) depth [] hs (by omega) hdepth rfl
  rw [List.append_nil] at h
  unfold read
  rw [h]
  rfl

theorem read_render {j : Json} (hw : j.WellFormed) {depth : Nat} (hdepth : j.nesting ≤ depth) :
    read depth j.render = some j :=
  read_written hw (spaced_render j) hdepth

end TwinGraph.Json
