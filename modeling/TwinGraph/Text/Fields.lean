import TwinGraph.Text.Basic

/-! Named fields in the order in which the names first came. A name that comes again keeps its
place and takes the new value. -/
namespace TwinGraph

abbrev Fields (α : Type) := List (Text × α)

namespace Fields

def find? (name : Text) : Fields α → Option α
  | [] => none
  | (n, v) :: rest => if n = name then some v else find? name rest

def has (name : Text) (fields : Fields α) : Bool := (find? name fields).isSome

def put (name : Text) (value : α) : Fields α → Fields α
  | [] => [(name, value)]
  | (n, v) :: rest => if n = name then (n, value) :: rest else (n, v) :: put name value rest

def ofList (entries : List (Text × α)) : Fields α :=
  entries.foldl (fun fields (name, value) => put name value fields) []

def names (fields : Fields α) : List Text := fields.map (·.1)

@[simp] theorem find?_put_self (name : Text) (value : α) (fields : Fields α) :
    find? name (put name value fields) = some value := by
  induction fields with
  | nil => simp [put, find?]
  | cons entry rest ih =>
    obtain ⟨n, v⟩ := entry
    by_cases h : n = name <;> simp [put, find?, h, ih]

theorem find?_put_of_ne {name other : Text} (h : other ≠ name) (value : α) (fields : Fields α) :
    find? other (put name value fields) = find? other fields := by
  induction fields with
  | nil => simp [put, find?, Ne.symm h]
  | cons entry rest ih =>
    obtain ⟨n, v⟩ := entry
    by_cases hn : n = name
    · subst hn; simp [put, find?, Ne.symm h]
    · by_cases ho : n = other
      · subst ho; simp [put, find?, hn]
      · simp [put, find?, hn, ho, ih]

theorem mem_of_find? {name : Text} {value : α} {fields : Fields α}
    (h : find? name fields = some value) : (name, value) ∈ fields := by
  induction fields with
  | nil => simp [find?] at h
  | cons entry rest ih =>
    obtain ⟨n, v⟩ := entry
    by_cases hn : n = name
    · simp only [find?, hn, ↓reduceIte, Option.some.injEq] at h
      simp [hn, h]
    · simp only [find?, hn, ↓reduceIte] at h
      exact List.mem_cons_of_mem _ (ih h)

theorem find?_of_mem {name : Text} {value : α} {fields : Fields α} (hn : fields.names.Nodup)
    (h : (name, value) ∈ fields) : find? name fields = some value := by
  induction fields with
  | nil => simp at h
  | cons entry rest ih =>
    obtain ⟨n, v⟩ := entry
    obtain ⟨hnot, hrest⟩ := List.nodup_cons.mp hn
    rcases List.mem_cons.mp h with heq | h
    · obtain ⟨rfl, rfl⟩ := Prod.mk.inj heq
      simp [find?]
    · have hne : n ≠ name := fun he => hnot (he ▸ List.mem_map_of_mem (f := (·.1)) h)
      simpa [find?, hne] using ih hrest h

theorem find?_eq_none {name : Text} {fields : Fields α} :
    find? name fields = none ↔ name ∉ fields.names := by
  induction fields with
  | nil => simp [find?, names]
  | cons entry rest ih =>
    obtain ⟨n, v⟩ := entry
    by_cases hn : n = name
    · simp [find?, names, hn]
    · simp only [find?, hn, ↓reduceIte, ih, names, List.map_cons, List.mem_cons, not_or]
      exact ⟨fun h => ⟨Ne.symm hn, h⟩, And.right⟩

theorem find?_map {β : Type} (f : α → β) (name : Text) (fields : Fields α) :
    find? name (fields.map fun field => (field.1, f field.2)) = (find? name fields).map f := by
  induction fields with
  | nil => rfl
  | cons field fields ih =>
    rw [List.map_cons, find?, find?]
    split
    · rfl
    · exact ih

theorem names_put (name : Text) (value : α) (fields : Fields α) :
    (put name value fields).names =
      if name ∈ fields.names then fields.names else fields.names ++ [name] := by
  induction fields with
  | nil => rfl
  | cons entry rest ih =>
    obtain ⟨n, v⟩ := entry
    by_cases hn : n = name
    · subst hn
      simp [put, names]
    · have hput : (put name value ((n, v) :: rest)).names = n :: (put name value rest).names := by
        rw [put, if_neg hn]
        rfl
      have hcons : names ((n, v) :: rest) = n :: names rest := rfl
      rw [hput, ih, hcons]
      by_cases hin : name ∈ names rest
      · rw [if_pos hin, if_pos (List.mem_cons_of_mem _ hin)]
      · have hnot : name ∉ n :: names rest := List.not_mem_cons_of_ne_of_not_mem (Ne.symm hn) hin
        rw [if_neg hin, if_neg hnot, List.cons_append]

theorem nodup_put {fields : Fields α} (h : fields.names.Nodup) (name : Text) (value : α) :
    (put name value fields).names.Nodup := by
  rw [names_put]
  split
  · exact h
  · next hnot =>
    refine List.nodup_append.mpr ⟨h, List.pairwise_singleton _ name, ?_⟩
    rintro n hn _ (_ | ⟨_, hnil⟩) rfl
    · exact hnot hn
    · cases hnil

theorem mem_put {name : Text} {value : α} {fields : Fields α} {entry : Text × α}
    (h : entry ∈ put name value fields) : entry = (name, value) ∨ entry ∈ fields := by
  induction fields with
  | nil => exact Or.inl (List.mem_singleton.mp h)
  | cons first rest ih =>
    obtain ⟨n, v⟩ := first
    unfold put at h
    split at h
    · next hn =>
      rcases List.mem_cons.mp h with rfl | h
      · exact Or.inl (by rw [hn])
      · exact Or.inr (List.mem_cons_of_mem _ h)
    · rcases List.mem_cons.mp h with rfl | h
      · exact Or.inr List.mem_cons_self
      · exact (ih h).imp_right (List.mem_cons_of_mem _)

theorem put_of_not_mem {name : Text} {fields : Fields α} (h : name ∉ fields.names) (value : α) :
    put name value fields = fields ++ [(name, value)] := by
  induction fields with
  | nil => rfl
  | cons entry rest ih =>
    rw [names, List.map_cons, List.mem_cons, not_or] at h
    rw [put, if_neg (Ne.symm h.1), ih h.2, List.cons_append]

/-- Fields with each name once are put as they are. -/
theorem ofList_of_nodup {fields : Fields α} (h : fields.names.Nodup) : ofList fields = fields := by
  have hall : ∀ start : Fields α, (start ++ fields).names.Nodup →
      fields.foldl (fun fields entry => put entry.1 entry.2 fields) start = start ++ fields := by
    clear h
    induction fields with
    | nil => exact fun start _ => (List.append_nil start).symm
    | cons entry fields ih =>
      intro start hn
      have hnot : entry.1 ∉ start.names := by
        rw [names, List.map_append, List.nodup_append] at hn
        exact fun hm => hn.2.2 entry.1 hm entry.1 List.mem_cons_self rfl
      rw [List.foldl_cons, put_of_not_mem hnot, ih _ (by simpa using hn), List.append_assoc,
        List.singleton_append]
  exact hall [] h

end Fields
end TwinGraph
