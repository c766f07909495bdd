import Mathlib.Data.List.Basic
import Mathlib.Data.List.TakeWhile
import TwinGraph.Proofs.Query.Parts

/-! Arguments of a call whose items are replaced by others. As long as spaces and commas stay and
each other item becomes a solid run of items, the arguments are what the old arguments become. -/
namespace TwinGraph.Item

theorem isSpace_eq_true {item : Item} : item.isSpace = true ↔ ∃ s, item = space s := by
  cases item <;> simp [isSpace]

theorem isComma_eq_true {item : Item} : item.isComma = true ↔ item = symbol [','] := by
  cases item <;> simp [isComma]

structure Trimmed (items : List Item) : Prop where
  first : ∀ x ∈ items.head?, x.isSpace = false
  last : ∀ x ∈ items.getLast?, x.isSpace = false

/-- There is something, without spaces at its ends, and no comma cuts it. -/
structure Solid (items : List Item) : Prop extends Trimmed items where
  nonempty : items ≠ []
  uncut : ∀ x ∈ items, x.isComma = false

theorem trimmed_nil : Trimmed [] := ⟨by simp, by simp⟩

theorem Trimmed.reverse {items : List Item} (h : Trimmed items) : Trimmed items.reverse :=
  ⟨by rw [List.head?_reverse]; exact h.last, by rw [List.getLast?_reverse]; exact h.first⟩

theorem head?_dropWhile (items : List Item) :
    ∀ x ∈ (items.dropWhile isSpace).head?, x.isSpace = false := by
  induction items with
  | nil => simp
  | cons item items ih =>
    by_cases hspace : item.isSpace = true
    · rwa [List.dropWhile_cons_of_pos hspace]
    · rw [List.dropWhile_cons_of_neg hspace]
      simpa using hspace

theorem trimmed_trimSpaces (items : List Item) : Trimmed (trimSpaces items) := by
  refine ⟨fun x hx => ?_, ?_⟩
  · -- What is left of the reversed list still ends with what the list began with.
    have hsuffix := List.dropWhile_suffix isSpace (l := (items.dropWhile isSpace).reverse)
    obtain ⟨front, hfront⟩ := hsuffix
    refine head?_dropWhile items x ?_
    have hback := congrArg List.reverse hfront
    rw [List.reverse_append, List.reverse_reverse] at hback
    rw [trimSpaces] at hx
    rw [← hback, List.head?_append, hx]
    rfl
  · rw [trimSpaces, List.getLast?_reverse]
    exact head?_dropWhile _

theorem trimSpaces_eq_nil {items : List Item} :
    trimSpaces items = [] ↔ items.all isSpace = true := by
  rw [trimSpaces, List.reverse_eq_nil_iff, List.dropWhile_eq_nil_iff, List.all_eq_true]
  have hhead := head?_dropWhile items
  constructor
  · intro h
    cases hleft : items.dropWhile isSpace with
    | nil => exact List.dropWhile_eq_nil_iff.mp hleft
    | cons x xs =>
      rw [hleft] at h hhead
      have hspace := h x (by simp)
      rw [hhead x rfl] at hspace
      cases hspace
  · intro h
    rw [List.dropWhile_eq_nil_iff.mpr h]
    simp

theorem solid_singleton {item : Item} (hspace : item.isSpace = false)
    (hcomma : item.isComma = false) : Solid [item] :=
  ⟨⟨by simpa using hspace, by simpa using hspace⟩, List.cons_ne_nil _ _,
    List.forall_mem_singleton.mpr hcomma⟩

theorem Solid.reverse {items : List Item} (h : Solid items) : Solid items.reverse :=
  ⟨h.toTrimmed.reverse, by simpa using h.nonempty, fun x hx => h.uncut x (List.mem_reverse.mp hx)⟩

theorem Trimmed.joined {items items' : List Item} {item : Item} (h : Trimmed items)
    (h' : Trimmed items') (hspace : item.isSpace = false) : Trimmed (items ++ item :: items') := by
  refine ⟨fun x hx => ?_, fun x hx => ?_⟩
  · cases items with
    | nil => simpa [← Option.some.inj hx] using hspace
    | cons y ys => exact h.first x hx
  · rw [List.getLast?_append_cons] at hx
    cases items' with
    | nil => simpa [← Option.some.inj hx] using hspace
    | cons y ys => exact h'.last x (by rwa [List.getLast?_cons_cons] at hx)

/-! ### Lists of items as images -/

section Images

variable {α : Type} (key : α → Item)

def trimBy (as : List α) : List α :=
  ((as.dropWhile fun a => (key a).isSpace).reverse.dropWhile fun a => (key a).isSpace).reverse

def cutBy : List α → List (List α)
  | [] => [[]]
  | a :: as =>
    if (key a).isComma then [] :: cutBy as
    else
      match cutBy as with
      | [] => [[a]]
      | piece :: rest => (a :: piece) :: rest

/-- The list cut into arguments as the items are for which its entries stand. -/
def argumentsBy (as : List α) : List (List α) :=
  if as.all fun a => (key a).isSpace then [] else (cutBy key as).map (trimBy key)

theorem trimBy_id (items : List Item) : trimBy id items = trimSpaces items := rfl

theorem cutBy_id (items : List Item) : cutBy id items = commaPieces items := by
  induction items with
  | nil => rfl
  | cons item items ih =>
    rw [cutBy, commaPieces, ih]
    cases commaPieces items <;> rfl

theorem argumentsBy_id (items : List Item) : argumentsBy id items = arguments items := by
  rw [argumentsBy, arguments, cutBy_id]
  rfl

theorem mem_of_mem_trimBy {a : α} {as : List α} (h : a ∈ trimBy key as) : a ∈ as := by
  have hback := (List.dropWhile_sublist _).subset (List.mem_reverse.mp h)
  exact (List.dropWhile_sublist _).subset (List.mem_reverse.mp hback)

theorem mem_of_mem_cutBy {a : α} {as piece : List α} (hpiece : piece ∈ cutBy key as)
    (h : a ∈ piece) : a ∈ as := by
  induction as generalizing piece with
  | nil =>
    rw [cutBy, List.mem_singleton] at hpiece
    rwa [hpiece] at h
  | cons first as ih =>
    rw [cutBy] at hpiece
    split at hpiece
    · rcases List.mem_cons.mp hpiece with rfl | hpiece
      · cases h
      · exact List.mem_cons_of_mem _ (ih hpiece h)
    · split at hpiece
      · rw [List.mem_singleton] at hpiece
        rw [hpiece, List.mem_singleton] at h
        exact h ▸ List.mem_cons_self
      · next next rest heq =>
        rw [heq] at ih
        rcases List.mem_cons.mp hpiece with rfl | hpiece
        · rcases List.mem_cons.mp h with rfl | h
          · exact List.mem_cons_self
          · exact List.mem_cons_of_mem _ (ih List.mem_cons_self h)
        · exact List.mem_cons_of_mem _ (ih (List.mem_cons_of_mem _ hpiece) h)

theorem mem_of_mem_argumentsBy {a : α} {as piece : List α} (hpiece : piece ∈ argumentsBy key as)
    (h : a ∈ piece) : a ∈ as := by
  unfold argumentsBy at hpiece
  split at hpiece
  · cases hpiece
  · obtain ⟨piece', hpiece', rfl⟩ := List.mem_map.mp hpiece
    exact mem_of_mem_cutBy key hpiece' (mem_of_mem_trimBy key h)

/-- Spaces and commas are kept, and anything else becomes a solid run. -/
def Carries (f : α → List Item) (a : α) : Prop :=
  if (key a).isSpace || (key a).isComma then f a = [key a] else Solid (f a)

variable {key} {f : α → List Item} {a : α} {as : List α}

theorem Carries.of_space (h : Carries key f a) (hspace : (key a).isSpace = true) :
    f a = [key a] := by
  rwa [Carries, hspace, Bool.true_or, if_pos rfl] at h

theorem Carries.of_comma (h : Carries key f a) (hcomma : (key a).isComma = true) :
    f a = [key a] := by
  rwa [Carries, hcomma, Bool.or_true, if_pos rfl] at h

theorem Carries.solid (h : Carries key f a) (hspace : (key a).isSpace = false)
    (hcomma : (key a).isComma = false) : Solid (f a) := by
  rwa [Carries, hspace, hcomma, Bool.or_false, if_neg Bool.false_ne_true] at h

/-- Only a space becomes something that begins with a space. -/
theorem Carries.first (h : Carries key f a) (hspace : (key a).isSpace = false) :
    ∃ x xs, f a = x :: xs ∧ x.isSpace = false := by
  by_cases hcomma : (key a).isComma = true
  · exact ⟨key a, [], h.of_comma hcomma, hspace⟩
  · have hsolid := h.solid hspace (Bool.eq_false_iff.mpr hcomma)
    obtain ⟨x, xs, hx⟩ := List.exists_cons_of_ne_nil hsolid.nonempty
    exact ⟨x, xs, hx, hsolid.first x (by rw [hx]; rfl)⟩

theorem Carries.reverse (h : Carries key f a) : Carries key (fun a => (f a).reverse) a := by
  rw [Carries] at h ⊢
  split
  · next hkept =>
    rw [if_pos hkept] at h
    rw [h, List.reverse_singleton]
  · next hkept =>
    rw [if_neg hkept] at h
    exact h.reverse

theorem dropWhile_flatMap (h : ∀ a ∈ as, Carries key f a) :
    (as.flatMap f).dropWhile isSpace = (as.dropWhile fun a => (key a).isSpace).flatMap f := by
  induction as with
  | nil => rfl
  | cons a as ih =>
    rw [List.forall_mem_cons] at h
    rw [List.flatMap_cons]
    cases hspace : (key a).isSpace with
    | true =>
      rw [h.1.of_space hspace, List.singleton_append, List.dropWhile_cons_of_pos hspace, ih h.2,
        List.dropWhile_cons_of_pos (p := fun a => (key a).isSpace) hspace]
    | false =>
      obtain ⟨x, xs, hx, hfirst⟩ := h.1.first hspace
      rw [List.dropWhile_cons_of_neg (by simp [hspace]), List.flatMap_cons, hx, List.cons_append,
        List.dropWhile_cons_of_neg (by simp [hfirst])]

theorem trimSpaces_flatMap (h : ∀ a ∈ as, Carries key f a) :
    trimSpaces (as.flatMap f) = (trimBy key as).flatMap f := by
  have hleft : ∀ a ∈ as.dropWhile fun a => (key a).isSpace, Carries key f a := fun a ha =>
    h a ((List.dropWhile_sublist _).subset ha)
  have hback : ∀ a ∈ (as.dropWhile fun a => (key a).isSpace).reverse,
      Carries key (fun a => (f a).reverse) a :=
    fun a ha => (hleft a (List.mem_reverse.mp ha)).reverse
  have hreverse : ((as.dropWhile fun a => (key a).isSpace).flatMap f).reverse =
      (as.dropWhile fun a => (key a).isSpace).reverse.flatMap fun a => (f a).reverse :=
    List.reverse_flatMap
  rw [trimSpaces, dropWhile_flatMap h, hreverse, dropWhile_flatMap hback, List.reverse_flatMap]
  simp only [Function.comp_def, List.reverse_reverse]
  rfl

end Images

theorem exists_commaPieces (items : List Item) :
    ∃ piece pieces, commaPieces items = piece :: pieces := by
  cases items with
  | nil => exact ⟨[], [], rfl⟩
  | cons item items =>
    rw [commaPieces]
    split
    · exact ⟨_, _, rfl⟩
    · split <;> exact ⟨_, _, rfl⟩

theorem commaPieces_append {run : List Item} (h : ∀ x ∈ run, x.isComma = false)
    (items : List Item) : ∃ piece pieces, commaPieces items = piece :: pieces ∧
      commaPieces (run ++ items) = (run ++ piece) :: pieces := by
  obtain ⟨piece, pieces, hpieces⟩ := exists_commaPieces items
  refine ⟨piece, pieces, hpieces, ?_⟩
  induction run with
  | nil => exact hpieces
  | cons x run ih =>
    rw [List.forall_mem_cons] at h
    rw [List.cons_append, commaPieces, if_neg (by simp [h.1]), ih h.2]
    rfl

theorem commaPieces_comma {item : Item} (h : item.isComma = true) (items : List Item) :
    commaPieces (item :: items) = [] :: commaPieces items := by
  rw [commaPieces, if_pos h]

section Images

variable {α : Type} {key : α → Item} {f : α → List Item} {as : List α}

theorem commaPieces_flatMap (h : ∀ a ∈ as, Carries key f a) :
    commaPieces (as.flatMap f) = (cutBy key as).map (·.flatMap f) := by
  induction as with
  | nil => rfl
  | cons a as ih =>
    rw [List.forall_mem_cons] at h
    rw [List.flatMap_cons, cutBy]
    cases hcomma : (key a).isComma with
    | true =>
      rw [h.1.of_comma hcomma, List.singleton_append, commaPieces_comma hcomma, if_pos rfl, ih h.2,
        List.map_cons, List.flatMap_nil]
    | false =>
      have huncut : ∀ x ∈ f a, x.isComma = false := by
        cases hspace : (key a).isSpace with
        | true =>
          rw [h.1.of_space hspace]
          exact List.forall_mem_singleton.mpr hcomma
        | false => exact (h.1.solid hspace hcomma).uncut
      obtain ⟨piece', pieces', hnew, hrun⟩ := commaPieces_append huncut (as.flatMap f)
      rw [ih h.2] at hnew
      obtain ⟨piece, pieces, hold, rfl, rfl⟩ := List.map_eq_cons_iff.mp hnew
      rw [hrun, if_neg Bool.false_ne_true, hold, List.map_cons, List.flatMap_cons]

theorem all_isSpace_flatMap (h : ∀ a ∈ as, Carries key f a) :
    (as.flatMap f).all isSpace = as.all fun a => (key a).isSpace := by
  induction as with
  | nil => rfl
  | cons a as ih =>
    rw [List.forall_mem_cons] at h
    rw [List.flatMap_cons, List.all_append, List.all_cons, ih h.2]
    cases hspace : (key a).isSpace with
    | true => rw [h.1.of_space hspace, List.all_cons, hspace, List.all_nil, Bool.and_true]
    | false =>
      obtain ⟨x, xs, hx, hfirst⟩ := h.1.first hspace
      rw [hx, List.all_cons, hfirst, Bool.false_and, Bool.false_and]

theorem arguments_flatMap (h : ∀ a ∈ as, Carries key f a) :
    arguments (as.flatMap f) = (argumentsBy key as).map (·.flatMap f) := by
  unfold arguments argumentsBy
  rw [all_isSpace_flatMap h]
  split
  · rfl
  · rw [commaPieces_flatMap h, List.map_map, List.map_map]
    refine List.map_congr_left fun piece hpiece => ?_
    exact trimSpaces_flatMap fun a ha => h a (mem_of_mem_cutBy key hpiece ha)

theorem carries_key (a : α) : Carries key (fun a => [key a]) a := by
  rw [Carries]
  split
  · rfl
  · next hkept =>
    rw [Bool.or_eq_true, not_or, Bool.not_eq_true, Bool.not_eq_true] at hkept
    exact solid_singleton hkept.1 hkept.2

end Images

end TwinGraph.Item
