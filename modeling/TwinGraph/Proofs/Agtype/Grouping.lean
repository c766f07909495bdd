import TwinGraph.Proofs.Agtype.Unwrapping

/-! Taking the annotations out leaves a text of the same value: groups, names and marks. -/
namespace TwinGraph.Agtype

open Json

namespace Unwrapping

variable {α : Type} {R R' : α → Text → Prop} {a : α} {as : List α} {s t : Text} {u : Unwrapping}

theorem settled_self (hplace : u.place = .plain) (hclosed : u.closed = none) : u.settled = u := by
  rw [settled_of_plain hplace, settle_of_closed hclosed]

theorem Rests.place_settled (h : u.Rests) : u.settled.place = .plain := by
  obtain hplace | ⟨letters, hplace⟩ := h
  · rw [settled_of_plain hplace, place_settle, hplace]
  · rw [settled_of_tag hplace, place_settle]

theorem Waits.step_open (h : u.Waits) {c : Char} (hc : c = '[' ∨ c = '\x7b') :
    u.step c = ⟨.plain, u.settled.current :: u.settled.outer, [c], none⟩ := by
  have hcolon : c ≠ ':' := by rcases hc with rfl | rfl <;> decide
  have hquote : c ≠ '"' := by rcases hc with rfl | rfl <;> decide
  rw [h.step hcolon]
  unfold plainStep openGroup
  rw [if_neg hquote, if_pos hc.symm, settle_of_closed u.closed_settled]
  dsimp only
  rw [h.place_settled, u.closed_settled]

theorem Rests.step_close (h : u.Rests) {c : Char} (hc : c = ']' ∨ c = '\x7d') {top : Text}
    {outer : List Text} (houter : u.settled.outer = top :: outer) :
    u.step c = ⟨.plain, outer, top, some (c :: u.settled.current)⟩ := by
  have hplace := h.place_settled
  rw [h.step (Or.inr hc)]
  unfold plainStep closeGroup
  rw [if_neg (by rcases hc with rfl | rfl <;> decide),
    if_neg (by rcases hc with rfl | rfl <;> decide), if_pos hc.symm,
    settle_of_closed u.closed_settled]
  simp only [write, houter, hplace]

theorem Rests.step_comma (h : u.Rests) :
    (u.step ',').Waits ∧ (u.step ',').settled = u.settled.append [','] := by
  have hstep : u.step ',' = u.settled.append [','] := by
    rw [h.step (Or.inl rfl), plainStep_ordinary (by decide), settle_of_closed u.closed_settled]
  rw [hstep]
  exact ⟨.of_plain h.place_settled u.closed_settled,
    settled_self h.place_settled u.closed_settled⟩

theorem step_colon (hplace : u.place = .plain) (hclosed : u.closed = none) :
    (u.step ':').Waits ∧ (u.step ':').settled = u.append [':'] := by
  have hstep : u.step ':' = { u with place := .colon } := by
    unfold step
    rw [hplace]
    rfl
  have hwaits : (u.step ':').Waits := by
    rw [hstep]
    exact ⟨Or.inr rfl, hclosed⟩
  refine ⟨hwaits, ?_⟩
  rw [hwaits.settled_eq, hstep]
  simp only [leave, write, append, settle_of_closed (u := { u with place := .colon }) hclosed]
  rw [hplace]
  rfl

/-- Two colons and letters behind a value are kept apart until the letters end. -/
theorem foldl_mark (hplace : u.place = .plain) {letters : Text}
    (h : letters.all Char.isAlpha = true) :
    (':' :: ':' :: letters).foldl step u = { u with place := .tag letters.reverse } := by
  have hletters : ∀ (letters front : Text), letters.all Char.isAlpha = true →
      letters.foldl step { u with place := .tag front } =
        { u with place := .tag (letters.reverse ++ front) } := by
    intro letters
    induction letters with
    | nil => exact fun _ _ => rfl
    | cons c letters ih =>
      intro front h
      rw [List.all_cons, Bool.and_eq_true] at h
      have hstep : ({ u with place := .tag front } : Unwrapping).step c =
          { u with place := .tag (c :: front) } := by
        unfold step
        dsimp only
        rw [if_pos h.1]
      rw [List.foldl_cons, hstep, ih _ h.2]
      simp
  have hcolons : (u.step ':').step ':' = { u with place := .tag [] } := by
    have hfirst : u.step ':' = { u with place := .colon } := by
      unfold step
      rw [hplace]
      rfl
    rw [hfirst]
    rfl
  rw [List.foldl_cons, List.foldl_cons, hcolons, hletters letters [] h, List.append_nil]

theorem Yields.append_mark (hs : ∀ u : Unwrapping, u.Waits → s.foldl step u = u.settled.append t)
    {m : Text} (hm : Numeric m) : Yields (s ++ m) t := by
  obtain rfl | rfl := hm
  · rw [List.append_nil]
    exact .of_append hs
  · intro u hu
    have hread : (s ++ "::numeric".toList).foldl step u =
        { u.settled.append t with place := .tag "numeric".toList.reverse } := by
      rw [List.foldl_append, hs u hu]
      exact foldl_mark (u := u.settled.append t) hu.place_settled (by decide)
    rw [hread]
    refine ⟨Or.inr ⟨_, rfl⟩, ?_⟩
    have hplace := hu.place_settled
    have hclosed := u.closed_settled
    rw [settled_of_tag rfl]
    simp [annotate, settle, append, hclosed, hplace]

theorem Closes.yields (h : Closes s t) : Yields s t := by
  intro u hu
  rw [h u hu]
  refine ⟨Or.inl rfl, ?_⟩
  have hplace := hu.place_settled
  have hclosed := u.closed_settled
  rw [settled_of_plain rfl]
  simp [settle, append, hclosed, hplace]

/-- An entity annotation behind a group puts the group into a marker object. -/
theorem Closes.wraps (h : Closes s t) {word : Text}
    (hword : word = vertexWord ∨ word = edgeWord ∨ word = pathWord) :
    Yields (s ++ ':' :: ':' :: word) (wrapping word ++ t ++ ['\x7d']) := by
  intro u hu
  have hletters : word.all Char.isAlpha = true := by
    rcases hword with rfl | rfl | rfl <;> decide
  have hread : (s ++ ':' :: ':' :: word).foldl step u =
      ⟨.tag word.reverse, u.settled.outer, u.settled.current, some t.reverse⟩ := by
    rw [List.foldl_append, h u hu]
    exact foldl_mark rfl hletters
  rw [hread]
  refine ⟨Or.inr ⟨_, rfl⟩, ?_⟩
  have hplace := hu.place_settled
  have hclosed := u.closed_settled
  rw [settled_of_tag rfl]
  simp [annotate, settle, append, hclosed, hplace, hword]

/-- Each text of the first kind comes out as a text of the second kind. -/
def Unwraps (R R' : α → Text → Prop) (a : α) : Prop := ∀ s, R a s → ∃ t, R' a t ∧ Yields s t

theorem listed_unwraps {close : Char} (hclose : close = ']' ∨ close = '\x7d')
    (has : ∀ a ∈ as, Unwraps R R' a) (hs : Listed R close as s) :
    ∃ t, Listed R' close as t ∧ ∀ (u : Unwrapping) (top : Text) (outer : List Text), u.Rests →
      u.settled.outer = top :: outer →
      s.foldl step u = ⟨.plain, outer, top, some (t.reverse ++ u.settled.current)⟩ := by
  induction hs with
  | nil => exact ⟨[close], .nil, fun u top outer hu houter => hu.step_close hclose houter⟩
  | @cons a as gap s rest hgap ha _ ih =>
    rw [List.forall_mem_cons] at has
    obtain ⟨t, ht, hyields⟩ := has.1 s ha
    obtain ⟨rest', hrest', hread⟩ := ih has.2
    refine ⟨',' :: gap ++ t ++ rest', .cons hgap ht hrest', ?_⟩
    intro u top outer hu houter
    obtain ⟨hcomma, hcommaEq⟩ := hu.step_comma
    obtain ⟨hgapped, hgappedEq⟩ := hcomma.foldl_gap hgap
    obtain ⟨hrests, hrestsEq⟩ := hyields _ hgapped
    rw [hgappedEq, hcommaEq, append_append, append_append] at hrestsEq
    have hmore := hread _ top outer hrests (by rw [hrestsEq]; exact houter)
    rw [List.foldl_append, List.foldl_append, List.cons_append, List.foldl_cons, hmore, hrestsEq]
    simp [append]

theorem bracketed_unwraps {opening close : Char} (hopening : opening = '[' ∨ opening = '\x7b')
    (hclose : close = ']' ∨ close = '\x7d') (has : ∀ a ∈ as, Unwraps R R' a)
    (hs : Bracketed R opening close as s) :
    ∃ t, Bracketed R' opening close as t ∧ Closes s t := by
  cases hs with
  | nil =>
    refine ⟨[opening, close], .nil, fun u hu => ?_⟩
    have hrests : (u.step opening).Rests := by
      rw [hu.step_open hopening]
      exact Or.inl rfl
    have hself : (u.step opening).settled =
        ⟨.plain, u.settled.current :: u.settled.outer, [opening], none⟩ := by
      rw [hu.step_open hopening]
      exact settled_self rfl rfl
    rw [List.foldl_cons, List.foldl_cons, hrests.step_close hclose (by rw [hself]), hself]
    rfl
  | @cons a as s rest ha hrest =>
    rw [List.forall_mem_cons] at has
    obtain ⟨t, ht, hyields⟩ := has.1 s ha
    obtain ⟨rest', hrest', hread⟩ := listed_unwraps hclose has.2 hrest
    refine ⟨opening :: t ++ rest', .cons ht hrest', fun u hu => ?_⟩
    have hwaits : (u.step opening).Waits := by
      rw [hu.step_open hopening]
      exact .of_plain rfl rfl
    have hself : (u.step opening).settled =
        ⟨.plain, u.settled.current :: u.settled.outer, [opening], none⟩ := by
      rw [hu.step_open hopening]
      exact settled_self rfl rfl
    obtain ⟨hrests, hrestsEq⟩ := hyields _ hwaits
    rw [hself] at hrestsEq
    rw [List.foldl_append, List.foldl_cons, hread _ u.settled.current u.settled.outer hrests
      (by rw [hrestsEq]; rfl), hrestsEq]
    simp [append]

theorem named_unwraps {name : Text} (ha : Unwraps R R' a) :
    Unwraps (Named R) (Named R') (name, a) := by
  rintro _ (@⟨_, _, gap, s, hgap, hs⟩)
  obtain ⟨t, ht, hyields⟩ := ha s hs
  refine ⟨_, .field hgap ht, fun u hu => ?_⟩
  have hname := hu.foldl_string name
  obtain ⟨hcolon, hcolonEq⟩ :=
    step_colon (u := u.settled.append (renderString name)) hu.place_settled u.closed_settled
  obtain ⟨hgapped, hgappedEq⟩ := hcolon.foldl_gap hgap
  obtain ⟨hrests, hrestsEq⟩ := hyields _ hgapped
  have htext : renderString name ++ ':' :: gap ++ s = renderString name ++ (':' :: (gap ++ s)) := by
    simp
  rw [htext, List.foldl_append, hname, List.foldl_cons, List.foldl_append]
  refine ⟨hrests, ?_⟩
  rw [hrestsEq, hgappedEq, hcolonEq, append_append, append_append, append_append]
  simp

end Unwrapping

open Unwrapping

theorem isOrdinary_digit {c : Char} (h : c.isDigit = true) : isOrdinary c = true := by
  have hrange : 48 ≤ c.toNat ∧ c.toNat ≤ 57 := by
    simpa [Char.isDigit, UInt32.le_iff_toNat_le] using h
  have hall : ∀ n < 58, 48 ≤ n → isOrdinary (Char.ofNat n) = true := by decide
  have hc := hall c.toNat (by omega) hrange.1
  rwa [Char.ofNat_toNat] at hc

theorem ordinary_ofNat (n : Nat) : (Text.ofNat n).all isOrdinary = true :=
  List.all_eq_true.mpr fun _ hc => isOrdinary_digit (isDigit_of_mem_ofNat hc)

theorem ordinary_decimal (d : Decimal) : d.render.all isOrdinary = true := by
  have hdigits := List.all_eq_true.mp (ordinary_ofNat d.digits)
  have htake : ∀ n, ((Text.ofNat d.digits).take n).all isOrdinary = true := fun n =>
    List.all_eq_true.mpr fun c hc => hdigits c (List.mem_of_mem_take hc)
  have hdrop : ∀ n, ((Text.ofNat d.digits).drop n).all isOrdinary = true := fun n =>
    List.all_eq_true.mpr fun c hc => hdigits c (List.mem_of_mem_drop hc)
  have hfraction : (Decimal.fraction ((Text.ofNat d.digits).drop 1)).all isOrdinary = true := by
    unfold Decimal.fraction
    split
    · rfl
    · rw [List.all_cons, hdrop]
      decide
  have hzeros : ∀ n, (List.replicate n '0').all isOrdinary = true := fun n =>
    List.all_eq_true.mpr fun c hc => by rw [List.eq_of_mem_replicate hc]; decide
  unfold Decimal.render
  dsimp only
  split
  · split
    · rw [List.all_append, List.all_append, ordinary_ofNat, hzeros]
      decide
    · split
      · rw [List.all_append, List.all_cons, htake, hdrop]
        decide
      · rw [List.cons_append, List.cons_append, List.all_cons, List.all_cons, List.all_append,
          hzeros, ordinary_ofNat]
        decide
  · rw [List.all_append, List.all_append, List.all_cons, List.all_cons, htake, hfraction,
      ordinary_ofNat]
    split <;> decide

theorem ordinary_number (n : Number) : n.render.all isOrdinary = true := by
  cases n with
  | whole n fits =>
    show (if 0 ≤ n then Text.ofNat n.toNat else '-' :: Text.ofNat n.natAbs).all isOrdinary = true
    split
    · exact ordinary_ofNat _
    · rw [List.all_cons, ordinary_ofNat]
      decide
  | float x =>
    show ((if x.negative then ['-'] else []) ++ x.shortest.render).all isOrdinary = true
    rw [List.all_append, ordinary_decimal]
    split <;> decide

theorem number_unwraps (n : Number) {m : Text} (hm : Numeric m) : Yields (n.render ++ m) n.render :=
  .append_mark (fun u hu => hu.foldl_ordinary
    (by obtain ⟨c, t, h, -⟩ := head_number n; rw [h]; exact List.cons_ne_nil c t)
    (ordinary_number n)) hm

theorem plainText_of_yields {s t : Text} (h : Yields s t) : plainText s = t := by
  obtain ⟨-, heq⟩ := h start (.of_plain rfl rfl)
  show ((s.foldl step start).settled.current ++
    (s.foldl step start).settled.outer.flatten).reverse = t
  rw [heq, settled_self rfl rfl]
  simp [start, append]

theorem object_closes {fields : List (Text × Json)}
    (hfields : ∀ field ∈ fields, Unwraps (Named (Written Numeric)) (Named Spaced) field) {s : Text}
    (hs : Written Numeric (object fields) s) : ∃ t, Spaced (object fields) t ∧ Closes s t := by
  cases hs with
  | object hs =>
    obtain ⟨t, ht, hclosed⟩ := bracketed_unwraps (Or.inr rfl) (Or.inr rfl) hfields hs
    exact ⟨t, .object ht, hclosed⟩

mutual

theorem written_unwraps : (j : Json) → Unwraps (Written Numeric) Spaced j
  | null => by
    rintro _ ⟨⟩
    exact ⟨_, .null, yields_ordinary (by decide) (by decide)⟩
  | .bool b => by
    rintro _ ⟨⟩
    exact ⟨_, .bool b, by cases b <;> exact yields_ordinary (by decide) (by decide)⟩
  | number n => by
    intro s hs
    cases hs with
    | number _ hm => exact ⟨_, spaced_render (number n), number_unwraps n hm⟩
  | string s => by
    rintro _ ⟨⟩
    exact ⟨_, .string s, yields_string s⟩
  | array items => by
    intro s hs
    cases hs with
    | array hs =>
      obtain ⟨t, ht, hclosed⟩ :=
        bracketed_unwraps (Or.inl rfl) (Or.inl rfl) (items_unwrap items) hs
      exact ⟨t, .array ht, hclosed.yields⟩
  | object fields => by
    intro s hs
    obtain ⟨t, ht, hclosed⟩ := object_closes (fields_unwrap fields) hs
    exact ⟨t, ht, hclosed.yields⟩

theorem items_unwrap : (items : List Json) → ∀ item ∈ items, Unwraps (Written Numeric) Spaced item
  | [] => fun _ h => absurd h List.not_mem_nil
  | item :: items => List.forall_mem_cons.mpr ⟨written_unwraps item, items_unwrap items⟩

theorem fields_unwrap : (fields : List (Text × Json)) →
    ∀ field ∈ fields, Unwraps (Named (Written Numeric)) (Named Spaced) field
  | [] => fun _ h => absurd h List.not_mem_nil
  | (_, value) :: fields =>
    List.forall_mem_cons.mpr ⟨named_unwraps (written_unwraps value), fields_unwrap fields⟩

end

end TwinGraph.Agtype
