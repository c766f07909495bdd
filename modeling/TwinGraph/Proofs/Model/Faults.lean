import TwinGraph.Proofs.Model.Rereading

/-! What reading documents can fail with. Documents alone are blamed for their form, ids and
contents. That models stay undefined, or that the store fails, is learned from answers only. -/
namespace TwinGraph

open Outcome

variable {ε α β : Type} {P : ε → Prop}

def Fails (P : ε → Prop) (x : Except ε α) : Prop := ∀ e, x = .error e → P e

namespace Fails

theorem ok (a : α) : Fails P (.ok a) := fun _ h => by cases h

theorem pure (a : α) : Fails P (Pure.pure a) := ok a

theorem error {e : ε} (h : P e) : Fails P (.error e : Except ε α) := by
  intro e' he
  cases he
  exact h

theorem bind {x : Except ε α} {f : α → Except ε β} (hx : Fails P x)
    (hf : ∀ a, x = .ok a → Fails P (f a)) : Fails P (x >>= f) := by
  intro e h
  rcases bind_eq_error.mp h with h | ⟨a, ha, h⟩
  · exact hx e h
  · exact hf a ha e h

theorem mapM {f : α → Except ε β} {as : List α} (h : ∀ a ∈ as, Fails P (f a)) :
    Fails P (as.mapM f) := by
  induction as with
  | nil => exact pure []
  | cons a as ih =>
    rw [List.forall_mem_cons] at h
    rw [List.mapM_cons]
    exact bind h.1 fun b _ => bind (ih h.2) fun bs _ => pure (b :: bs)

theorem foldlM {f : β → α → Except ε β} {as : List α} {b : β}
    (h : ∀ a ∈ as, ∀ b, Fails P (f b a)) : Fails P (as.foldlM f b) := by
  intro e he
  obtain ⟨a, ha, b', he⟩ := foldlM_eq_error he
  exact h a ha b' e he

end Fails

/-- The error lies in the documents that were read, whatever else there may be. -/
def ModelError.InDocuments : ModelError → Prop
  | .unresolved _ | .store _ | .outOfRounds _ => False
  | _ => True

/-- The error lies in what some document says, and not in its id being given twice. -/
def ModelError.InContents : ModelError → Prop
  | .invalidDocument (.redefined _) | .unresolved _ | .store _ | .outOfRounds _ => False
  | _ => True

theorem Fails.inDocuments {x : Except ModelError α} (h : Fails ModelError.InContents x) :
    Fails ModelError.InDocuments x := by
  intro e he
  have hcontents := h e he
  cases e with
  | unresolved | store | outOfRounds => exact hcontents
  | _ => trivial

theorem Fails.not_redefined {x : Except ModelError α} (h : Fails ModelError.InContents x)
    {id : Text} : x ≠ .error (.invalidDocument (.redefined id)) := by
  intro he
  exact h _ he

namespace Document

theorem fails_flatten (batch : List Json) : Fails ModelError.InContents (flatten batch) := by
  induction batch with
  | nil => exact Fails.ok []
  | cons document batch ih =>
    cases document with
    | object fields => exact Fails.bind ih fun _ _ => Fails.pure _
    | array items =>
      unfold flatten
      split
      · exact Fails.bind ih fun _ _ => Fails.pure _
      · exact Fails.error trivial
    | _ => exact Fails.error trivial

theorem fails_interfaceId (document : Json) :
    Fails ModelError.InContents (interfaceId document) := by
  unfold interfaceId
  split
  · exact Fails.error trivial
  · split
    · exact Fails.error trivial
    · split
      · exact Fails.ok _
      · exact Fails.error trivial

theorem fails_parentIds (document : Json) : Fails ModelError.InContents (parentIds document) := by
  have hone : ∀ parent, Fails ModelError.InContents (parentId parent) := by
    intro parent
    cases parent with
    | string id =>
      unfold parentId
      dsimp only
      split
      · exact Fails.ok _
      · exact Fails.error trivial
    | object fields => exact fails_interfaceId _
    | _ => exact Fails.error trivial
  unfold parentIds
  split
  · exact Fails.ok _
  · exact Fails.mapM fun parent _ => hone parent
  · exact Fails.bind (hone _) fun _ _ => Fails.pure _

end Document

namespace Schema

theorem fails_requiredPart (schemaType part : Text) (schema : Json) :
    Fails ModelError.InContents (requiredPart schemaType part schema) := by
  unfold requiredPart
  split
  · exact Fails.ok _
  · exact Fails.error trivial

theorem fails_readEnumType (value : Json) : Fails ModelError.InContents (readEnumType value) := by
  unfold readEnumType
  split
  · exact Fails.ok _
  · split
    · exact Fails.ok _
    · exact Fails.error trivial

theorem fails_readEnumValue (entry : Json) :
    Fails ModelError.InContents (readEnumValue entry) := by
  unfold readEnumValue
  split
  · exact Fails.ok _
  · exact Fails.error trivial

theorem fails_readWithin (reusable : Text → Option Json) (levels : Nat) (value : Json) :
    Fails ModelError.InContents (readWithin reusable levels value) := by
  induction levels generalizing value with
  | zero => exact Fails.error trivial
  | succ levels ih =>
    have hpart := fails_requiredPart
    cases value with
    | string name =>
      unfold readWithin
      dsimp only
      split
      · exact Fails.ok _
      · split
        · exact ih _
        · exact Fails.error trivial
    | object fields =>
      unfold readWithin
      dsimp only
      split
      · refine Fails.bind (hpart _ _ _) fun type _ => ?_
        refine Fails.bind (fails_readEnumType _) fun _ _ => ?_
        refine Fails.bind (hpart _ _ _) fun values _ => Fails.bind ?_ fun _ _ => Fails.pure _
        exact Fails.mapM fun entry _ => fails_readEnumValue entry
      · split
        · refine Fails.bind (hpart _ _ _) fun parts _ => Fails.bind ?_ fun _ _ => Fails.pure _
          refine Fails.mapM fun part _ => ?_
          split
          · exact Fails.error trivial
          · split
            · exact Fails.error trivial
            · exact Fails.bind (ih _) fun _ _ => Fails.pure _
        · split
          · refine Fails.bind (hpart _ _ _) fun element _ => ?_
            exact Fails.bind (ih element) fun _ _ => Fails.pure _
          · split
            · refine Fails.bind (hpart _ _ _) fun inner _ => ?_
              split
              · exact Fails.error trivial
              · exact Fails.bind (ih _) fun _ _ => Fails.pure _
            · exact Fails.error trivial
    | _ => exact Fails.error trivial

end Schema

theorem Content.fails_read (interface : Text) (reusable : Text → Option Json) (entry : Json) :
    Fails ModelError.InContents (read interface reusable entry) := by
  have hschema : ∀ word name,
      Fails ModelError.InContents (readSchema interface reusable word name entry) := by
    intro word name
    unfold readSchema
    split
    · exact Schema.fails_readWithin _ _ _
    · exact Fails.error trivial
  unfold read
  split
  · exact Fails.error trivial
  · split
    · exact Fails.error trivial
    · split
      · exact Fails.bind (hschema _ _) fun _ _ => Fails.pure _
      · split
        · exact Fails.bind (hschema _ _) fun _ _ => Fails.pure _
        · split
          · exact Fails.ok _
          · split
            · split
              · exact Fails.ok _
              · exact Fails.error trivial
            · exact Fails.ok _

theorem fails_readDeclarations (known : Directory Json) :
    Fails ModelError.InContents (readDeclarations known) := by
  refine Fails.foldlM fun entry _ declared => Fails.bind ?_ fun _ _ => Fails.pure _
  refine Fails.bind (Fails.mapM fun content _ => Content.fails_read _ _ content) fun _ _ => ?_
  exact Fails.bind (Document.fails_parentIds _) fun _ _ => Fails.pure _

namespace Interface

variable {declared : Directory Declaration}

/-- With every parent declared, building fails for what the declarations say only. -/
theorem fails_build (hclosed : Closed declared) {depth : Nat} {path : List Text} {id : Text}
    (hid : declared.has id = true) (built : Directory Interface) :
    Fails ModelError.InContents (build declared depth path id built) := by
  induction depth generalizing path id built with
  | zero => exact Fails.error trivial
  | succ depth ih =>
    obtain ⟨d, hd⟩ := Option.isSome_iff_exists.mp hid
    rw [build_succ, hd]
    split
    · exact Fails.ok _
    · split
      · exact Fails.error trivial
      · refine Fails.bind (Fails.foldlM fun parent hparent state => ?_) fun _ _ => ?_
        · have hhas : declared.has parent = true := hclosed id parent ⟨d, hd, hparent⟩
          refine Fails.bind (ih hhas _) fun next _ => Fails.bind ?_ fun _ _ => Fails.pure _
          intro e he
          obtain ⟨name, rfl⟩ := inherit_eq_error he
          trivial
        · refine Fails.bind ?_ fun _ _ => Fails.pure _
          intro e he
          obtain ⟨name, rfl⟩ := declare_eq_error he
          trivial

theorem fails_buildAll (hclosed : Closed declared) :
    Fails ModelError.InContents (buildAll declared) :=
  Fails.foldlM fun _ hid built => fails_build hclosed (Directory.mem_names.mp hid) built

theorem closed_of_missing {known : Directory Json} (hread : readDeclarations known = .ok declared)
    (hmissing : Resolution.missing known = .ok []) : Closed declared := by
  intro i parent h
  obtain ⟨document, refs, hdoc, hrefs, hmem⟩ := extends_refers hread hmissing h
  rw [readDeclarations_has hread]
  exact Resolution.missing_eq_nil hmissing hdoc hrefs hmem

end Interface

namespace Resolution

theorem fails_references (document : Json) :
    Fails ModelError.InContents (references document) := by
  refine Fails.bind (Document.fails_parentIds document) fun parents _ => ?_
  dsimp only
  split
  · exact Fails.error trivial
  · exact Fails.pure _

theorem fails_missing (known : Directory Json) : Fails ModelError.InContents (missing known) :=
  Fails.bind (Fails.mapM fun document _ => fails_references document) fun _ _ => Fails.pure _

mutual

theorem fails_enter (known : Directory Json) :
    (document : Json) → Fails ModelError.InDocuments (enter known document)
  | .object fields => by
    unfold enter
    refine Fails.bind (Document.fails_interfaceId _).inDocuments fun id _ => ?_
    refine Fails.bind (fails_enterInline known fields) fun next _ => ?_
    split
    · exact Fails.bind (Fails.error trivial) fun _ _ => Fails.pure _
    · exact Fails.pure _
  | .array items => fails_enterItems known items
  | .null | .bool _ | .number _ | .string _ => Fails.ok known

theorem fails_enterInline (known : Directory Json) :
    (fields : List (Text × Json)) → Fails ModelError.InDocuments (enterInline known fields)
  | [] => Fails.ok known
  | (name, value) :: rest => by
    unfold enterInline
    split
    · exact fails_enter known value
    · exact fails_enterInline known rest

theorem fails_enterItems (known : Directory Json) :
    (items : List Json) → Fails ModelError.InDocuments (enterItems known items)
  | [] => Fails.ok known
  | item :: items => by
    unfold enterItems
    dsimp only
    split
    · exact Fails.bind (fails_enter known item) fun next _ => fails_enterItems next items
    · exact fails_enterItems known items

end

end Resolution
end TwinGraph
