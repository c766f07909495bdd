import TwinGraph.Proofs.Model.Building

/-! How deep the recursions go in which models are read. Each is written once more without a bound
on its depth in the way, noting how many calls are open. That comes to the same, and the depth
stays small whatever refers to what. -/
namespace TwinGraph

open Outcome

variable {α β : Type}

theorem length_filter_lt {strict loose : α → Bool} {as : List α} {a : α}
    (h : ∀ b, strict b = true → loose b = true) (ha : a ∈ as) (hpass : loose a = true)
    (hfail : strict a = false) : (as.filter strict).length < (as.filter loose).length := by
  have hstep : as.filter strict = (as.filter loose).filter strict := by
    rw [List.filter_filter]
    apply List.filter_congr
    intro b _
    cases hb : strict b with
    | true => simp [h b hb]
    | false => simp
  rw [hstep, List.length_filter_lt_length_iff_exists]
  exact ⟨a, List.mem_filter.mpr ⟨ha, hpass⟩, by simp [hfail]⟩

/-- Steps that note how deep they go. -/
abbrev Noting (α : Type) := ExceptT ModelError (StateM Nat) α

def note (depth : Nat) : Noting Unit := modify (max depth)

def StaysWithin (limit : Nat) (steps : Noting α) (result : Except ModelError α) : Prop :=
  ∀ noted, ∃ deepest, steps.run noted = (result, deepest) ∧ deepest ≤ max noted limit

namespace StaysWithin

variable {limit : Nat}

theorem lift (result : Except ModelError α) : StaysWithin limit (liftM result) result := by
  intro noted
  exact ⟨noted, rfl, Nat.le_max_left _ _⟩

theorem pure (a : α) : StaysWithin limit (Pure.pure a) (.ok a) := lift (.ok a)

theorem throw (e : ModelError) : StaysWithin (α := α) limit (MonadExcept.throw e) (.error e) := by
  intro noted
  exact ⟨noted, rfl, Nat.le_max_left _ _⟩

theorem bind {x : Noting α} {f : α → Noting β} {result : Except ModelError α}
    {g : α → Except ModelError β} (hx : StaysWithin limit x result)
    (hf : ∀ a, StaysWithin limit (f a) (g a)) : StaysWithin limit (x >>= f) (result >>= g) := by
  intro noted
  obtain ⟨deepest, hrun, hdeepest⟩ := hx noted
  rw [run_bind, hrun]
  cases result with
  | error e => exact ⟨deepest, rfl, hdeepest⟩
  | ok a =>
    obtain ⟨deepest', hrun', hdeepest'⟩ := hf a deepest
    exact ⟨deepest', hrun', by omega⟩

theorem open_call {depth : Nat} (h : depth ≤ limit) {x : Noting α} {result : Except ModelError α}
    (hx : StaysWithin limit x result) : StaysWithin limit (do note depth; x) result := by
  intro noted
  obtain ⟨deepest, hrun, hdeepest⟩ := hx (max depth noted)
  refine ⟨deepest, ?_, by omega⟩
  rw [run_bind]
  exact hrun

theorem mapM {f : α → Noting β} {g : α → Except ModelError β} {as : List α}
    (h : ∀ a ∈ as, StaysWithin limit (f a) (g a)) : StaysWithin limit (as.mapM f) (as.mapM g) := by
  induction as with
  | nil => exact pure []
  | cons a as ih =>
    rw [List.forall_mem_cons] at h
    rw [List.mapM_cons, List.mapM_cons]
    apply bind h.1
    intro b
    apply bind (ih h.2)
    intro bs
    exact pure (b :: bs)

theorem foldlM {f : β → α → Noting β} {g : β → α → Except ModelError β} {as : List α}
    (h : ∀ a ∈ as, ∀ b, StaysWithin limit (f b a) (g b a)) (b : β) :
    StaysWithin limit (as.foldlM f b) (as.foldlM g b) := by
  induction as generalizing b with
  | nil => exact pure b
  | cons a as ih =>
    rw [List.forall_mem_cons] at h
    rw [List.foldlM_cons, List.foldlM_cons]
    exact bind (h.1 b) (ih h.2)

end StaysWithin

/-! ### Schemas -/

namespace Schema

/-- Reads a schema at a depth, counted from the outermost one. A schema that is one level too deep
is an error, and nothing below it is looked at. -/
def readNoting (reusable : Text → Option Json) (depth : Nat) (value : Json) : Noting Schema := do
  note depth
  if maxDepth < depth then throw (.unsupportedSchema (.tooDeep maxDepth))
  else
    match value with
    | .string name =>
      match Primitive.ofName? name with
      | some type => return .primitive type
      | none =>
        match reusable name with
        | some definition => readNoting reusable (depth + 1) definition
        | none => throw (.unsupportedSchema (.unknown name))
    | .object fields =>
      let schema : Json := .object fields
      let schemaType := (schema.stringField? "@type").getD []
      if schemaType = "Enum" then
        let type ← readEnumType (← requiredPart schemaType "valueSchema" schema)
        let values ← requiredPart schemaType "enumValues" schema
        let read : Except ModelError (List EnumValue) := (values.items?.getD []).mapM readEnumValue
        return .enumeration type (← read)
      else if schemaType = "Object" then
        let fields ← requiredPart schemaType "fields" schema
        return .object (← (fields.items?.getD []).mapM fun field => do
          match field.stringField? "name" with
          | none => throw (.invalidDocument (.namelessField field))
          | some name =>
            match field.field? "schema" with
            | none => throw (.invalidDocument (.fieldWithoutSchema name))
            | some value => return (name, ← readNoting reusable (depth + 1) value))
      else if schemaType = "Array" then
        return .array
          (← readNoting reusable (depth + 1) (← requiredPart schemaType "elementSchema" schema))
      else if schemaType = "Map" then
        match (← requiredPart schemaType "mapValue" schema).field? "schema" with
        | none => throw (.invalidDocument .mapWithoutSchema)
        | some value => return .map (← readNoting reusable (depth + 1) value)
      else throw (.unsupportedSchema (.unknown schemaType))
    | other => throw (.unsupportedSchema (.notSchema other))
termination_by maxDepth + 1 - depth

theorem readNoting_within (reusable : Text → Option Json) {levels depth : Nat}
    (h : depth + levels = maxDepth + 1) (value : Json) :
    StaysWithin (maxDepth + 1) (readNoting reusable depth value)
      (readWithin reusable levels value) := by
  have hle : depth ≤ maxDepth + 1 := by omega
  induction levels generalizing depth value with
  | zero =>
    have hdeep : maxDepth < depth := by omega
    unfold readNoting
    apply StaysWithin.open_call hle
    rw [if_pos hdeep]
    exact .throw _
  | succ levels ih =>
    have hshallow : ¬maxDepth < depth := by omega
    have hnext : ∀ value, StaysWithin (maxDepth + 1) (readNoting reusable (depth + 1) value)
        (readWithin reusable levels value) := by
      intro value
      exact ih (by omega) value (by omega)
    unfold readNoting
    apply StaysWithin.open_call hle
    rw [if_neg hshallow]
    cases value with
    | string name =>
      unfold readWithin
      dsimp only
      cases Primitive.ofName? name with
      | some type => exact .pure _
      | none =>
        dsimp only
        cases reusable name with
        | some definition => exact hnext definition
        | none => exact .throw _
    | object fields =>
      unfold readWithin
      dsimp only
      split
      · apply StaysWithin.bind (.lift _)
        intro type
        apply StaysWithin.bind (.lift _)
        intro type
        apply StaysWithin.bind (.lift _)
        intro values
        exact StaysWithin.bind (.lift _) fun _ => .pure _
      · split
        · apply StaysWithin.bind (.lift _)
          intro parts
          refine StaysWithin.bind (StaysWithin.mapM ?_) fun _ => .pure _
          intro part _
          cases part.stringField? "name" with
          | none => exact .throw _
          | some name =>
            dsimp only
            cases part.field? "schema" with
            | none => exact .throw _
            | some value => exact StaysWithin.bind (hnext value) fun _ => .pure _
        · split
          · apply StaysWithin.bind (.lift _)
            intro element
            exact StaysWithin.bind (hnext element) fun _ => .pure _
          · split
            · apply StaysWithin.bind (.lift _)
              intro inner
              cases inner.field? "schema" with
              | none => exact .throw _
              | some value => exact StaysWithin.bind (hnext value) fun _ => .pure _
            · exact .throw _
    | _ =>
      unfold readWithin
      exact .throw _

end Schema

/-! ### Interfaces -/

namespace Interface

variable {declared : Directory Declaration}

theorem left_lt {path : List Text} {id : Text} (hid : id ∈ declared.names) (hnew : id ∉ path) :
    (declared.names.filter (!(id :: path).contains ·)).length <
      (declared.names.filter (!path.contains ·)).length := by
  apply length_filter_lt _ hid
  · simpa using hnew
  · simp
  · intro i hi
    simp at hi
    simpa using hi.2

/-- Adds an interface to those that are built, after the ones it extends, however deep they go. A
call is open for each interface on the path and for the one that is added. -/
def buildNoting (declared : Directory Declaration) (path : List Text) (id : Text)
    (built : Directory Interface) : Noting (Directory Interface) := do
  note (path.length + 1)
  if built.has id then return built
  else if path.contains id then throw (.extendsCycle id)
  else
    match _ : declared.find? id with
    | none => throw (.unresolved [id])
    | some declaration => do
      let (contents, built) ← declaration.parents.foldlM
        (fun (contents, built) parent => do
          let built ← buildNoting declared (id :: path) parent built
          let inherited := ((built.find? parent).map (·.contents.entries)).getD []
          return (← inherit id contents inherited, built))
        ((Directory.empty, built) : Directory Content × Directory Interface)
      let contents ← declare id contents declaration.contents
      return built.insert id ⟨id, declaration.parents, contents⟩
termination_by (declared.names.filter (!path.contains ·)).length
decreasing_by
  have hdeclared : declared.find? id = some declaration := by assumption
  have hnew : ¬path.contains id = true := by assumption
  apply left_lt
  · exact Directory.mem_names.mpr (Option.isSome_iff_exists.mpr ⟨declaration, hdeclared⟩)
  · simpa using hnew

def buildAllNoting (declared : Directory Declaration) : Noting (Directory Interface) :=
  declared.names.foldlM (fun built id => buildNoting declared [] id built) Directory.empty

theorem buildNoting_within {depth : Nat} {path : List Text} {id : Text}
    (hwait : Waiting declared depth path id) (built : Directory Interface) :
    StaysWithin (declared.entries.length + 1) (buildNoting declared path id built)
      (build declared depth path id built) := by
  -- on the depth that is left for building, which a waiting path does not use up
  induction depth generalizing path id built with
  | zero => exact absurd hwait Waiting.depth_pos
  | succ depth ih =>
    have hle : path.length + 1 ≤ declared.entries.length + 1 := by
      have hlen := hwait.length_le
      omega
    unfold buildNoting
    rw [build_succ]
    apply StaysWithin.open_call hle
    split
    · exact .pure _
    · split
      · exact .throw _
      · next hnew =>
        cases hd : declared.find? id with
        | none => exact .throw _
        | some d =>
          refine StaysWithin.bind (StaysWithin.foldlM ?_ _) ?_
          · intro parent hparent b
            have hnext := hwait.next (by simpa using hnew) ⟨d, hd, hparent⟩
            apply StaysWithin.bind (ih hnext b.2)
            intro next
            exact StaysWithin.bind (.lift _) fun _ => .pure _
          · intro b
            exact StaysWithin.bind (.lift _) fun _ => .pure _

theorem buildAllNoting_within (declared : Directory Declaration) :
    StaysWithin (declared.entries.length + 1) (buildAllNoting declared) (buildAll declared) := by
  apply StaysWithin.foldlM
  intro id _ built
  exact buildNoting_within (Waiting.start id) built

end Interface
end TwinGraph
