import TwinGraph.Text.Order

/-! Entries by name, kept in the order of the names. Each name has one entry at most, so two
directories with the same look-ups are equal. -/
namespace TwinGraph

structure Directory (α : Type) where
  entries : List (Text × α)
  sorted : entries.Pairwise fun a b => Text.before a.1 b.1 = true

namespace Directory

def findIn (name : Text) : List (Text × α) → Option α
  | [] => none
  | (n, v) :: rest => if n = name then some v else findIn name rest

def insertIn (name : Text) (value : α) : List (Text × α) → List (Text × α)
  | [] => [(name, value)]
  | (n, v) :: rest =>
    if n = name then (name, value) :: rest
    else if Text.before name n then (name, value) :: (n, v) :: rest
    else (n, v) :: insertIn name value rest

theorem mem_insertIn {name : Text} {value : α} {entry : Text × α} {entries : List (Text × α)}
    (h : entry ∈ insertIn name value entries) : entry = (name, value) ∨ entry ∈ entries := by
  induction entries with
  | nil => simpa [insertIn] using h
  | cons head rest ih =>
    unfold insertIn at h
    split at h
    · simp only [List.mem_cons] at h ⊢
      rcases h with h | h
      · exact Or.inl h
      · exact Or.inr (Or.inr h)
    · split at h
      · simpa using h
      · simp only [List.mem_cons] at h ⊢
        rcases h with h | h
        · exact Or.inr (Or.inl h)
        · exact (ih h).imp_right Or.inr

theorem sorted_insertIn (name : Text) (value : α) {entries : List (Text × α)}
    (h : entries.Pairwise fun a b => Text.before a.1 b.1 = true) :
    (insertIn name value entries).Pairwise fun a b => Text.before a.1 b.1 = true := by
  induction entries with
  | nil => simp [insertIn]
  | cons head rest ih =>
    obtain ⟨n, v⟩ := head
    obtain ⟨hhead, hrest⟩ := List.pairwise_cons.1 h
    unfold insertIn
    split
    · next hn => exact List.pairwise_cons.2 ⟨fun e he => hn ▸ hhead e he, hrest⟩
    · next hn =>
      split
      · next hlt =>
        refine List.pairwise_cons.2 ⟨fun e he => ?_, h⟩
        rcases List.mem_cons.1 he with rfl | he
        · exact hlt
        · exact Text.before_trans hlt (hhead e he)
      · next hlt =>
        refine List.pairwise_cons.2 ⟨fun e he => ?_, ih hrest⟩
        rcases mem_insertIn he with rfl | he
        · exact Text.before_total (by simpa using hlt) (Ne.symm hn)
        · exact hhead e he

def empty : Directory α := ⟨[], List.Pairwise.nil⟩

def find? (name : Text) (d : Directory α) : Option α := findIn name d.entries

def has (name : Text) (d : Directory α) : Bool := (d.find? name).isSome

/-- Takes the place of the entry of that name, if there is one. -/
def insert (name : Text) (value : α) (d : Directory α) : Directory α :=
  ⟨insertIn name value d.entries, sorted_insertIn name value d.sorted⟩

def names (d : Directory α) : List Text := d.entries.map (·.1)

def values (d : Directory α) : List α := d.entries.map (·.2)

@[simp] theorem find?_empty (name : Text) : (empty : Directory α).find? name = none := rfl

theorem findIn_insertIn (name other : Text) (value : α) (entries : List (Text × α)) :
    findIn other (insertIn name value entries) =
      if name = other then some value else findIn other entries := by
  induction entries with
  | nil => simp [insertIn, findIn]
  | cons head rest ih =>
    obtain ⟨n, v⟩ := head
    unfold insertIn
    split
    · next hn => subst hn; by_cases h : n = other <;> simp [findIn, h]
    · next hn =>
      split
      · simp [findIn]
      · by_cases h : n = other
        · subst h; simp [findIn, Ne.symm hn]
        · simp [findIn, h, ih]

@[simp] theorem find?_insert (name other : Text) (value : α) (d : Directory α) :
    (d.insert name value).find? other = if name = other then some value else d.find? other :=
  findIn_insertIn name other value d.entries

theorem findIn_eq_some {name : Text} {value : α} {entries : List (Text × α)}
    (hs : entries.Pairwise fun a b => Text.before a.1 b.1 = true) :
    findIn name entries = some value ↔ (name, value) ∈ entries := by
  induction entries with
  | nil => simp [findIn]
  | cons head rest ih =>
    obtain ⟨n, v⟩ := head
    obtain ⟨hhead, hrest⟩ := List.pairwise_cons.1 hs
    by_cases hn : n = name
    · subst hn
      have hnot : (n, value) ∉ rest := fun hm => by
        simpa [Text.not_before_self] using hhead _ hm
      simp [findIn, hnot, eq_comm]
    · simp [findIn, hn, ih hrest, Ne.symm hn]

theorem mem_entries {name : Text} {value : α} {d : Directory α} :
    (name, value) ∈ d.entries ↔ d.find? name = some value :=
  (findIn_eq_some d.sorted).symm

theorem mem_names {name : Text} {d : Directory α} : name ∈ d.names ↔ d.has name = true := by
  simp only [names, List.mem_map, Prod.exists, exists_and_right, exists_eq_right, mem_entries, has,
    Option.isSome_iff_exists]

theorem has_eq_false {name : Text} {d : Directory α} : d.has name = false ↔ d.find? name = none := by
  simp [has]

theorem not_mem_names {name : Text} {d : Directory α} : name ∉ d.names ↔ d.find? name = none := by
  rw [mem_names, ← has_eq_false, Bool.not_eq_true]

theorem mem_values {value : α} {d : Directory α} :
    value ∈ d.values ↔ ∃ name, d.find? name = some value := by
  simp only [values, List.mem_map, Prod.exists, exists_eq_right, mem_entries]

theorem names_nodup (d : Directory α) : d.names.Nodup := by
  refine List.pairwise_map.2 (d.sorted.imp ?_)
  intro a b h he
  rw [he, Text.not_before_self] at h
  exact Bool.false_ne_true h

theorem has_insert (name other : Text) (value : α) (d : Directory α) :
    (d.insert name value).has other = true ↔ name = other ∨ d.has other = true := by
  by_cases h : name = other <;> simp [has, h]

def restrict (keep : Text → Prop) [DecidablePred keep] (d : Directory α) : Directory α :=
  ⟨d.entries.filter fun entry => keep entry.1, d.sorted.filter _⟩

theorem find?_restrict {keep : Text → Prop} [DecidablePred keep] {d : Directory α} {name : Text}
    {value : α} : (d.restrict keep).find? name = some value ↔
      keep name ∧ d.find? name = some value := by
  rw [← mem_entries, ← mem_entries, restrict, List.mem_filter, decide_eq_true_iff, and_comm]

/-- A directory is its look-ups. -/
theorem ext_find? {d e : Directory α} (h : ∀ name, d.find? name = e.find? name) : d = e := by
  suffices hs : d.entries = e.entries by
    cases d; cases e; simpa using hs
  refine List.Perm.eq_of_pairwise (fun a b _ _ hab hba => ?_) d.sorted e.sorted ?_
  · have hc := Text.before_trans hab hba
    rw [Text.not_before_self] at hc
    exact absurd hc Bool.false_ne_true
  · have hnodup : ∀ f : Directory α, f.entries.Nodup := fun f =>
      (List.pairwise_map.1 f.names_nodup).imp fun hne he => hne (congrArg Prod.fst he)
    refine (List.perm_ext_iff_of_nodup (hnodup d) (hnodup e)).2 ?_
    rintro ⟨name, value⟩
    rw [mem_entries, mem_entries, h]

end Directory
end TwinGraph
