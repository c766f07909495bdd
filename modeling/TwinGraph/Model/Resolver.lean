import TwinGraph.Model.Resolution

/-! Resolvers that answer from documents at hand. -/
namespace TwinGraph.Resolver

def select (documents : List Json) (ids : List Text) : List Json :=
  documents.filter fun document => (document.stringField? "@id").any fun id => ids.any (· == id)

def ofDocuments (documents : List Json) : Resolver σ := fun ids => pure (select documents ids)

structure Rehearsal where
  answers : List (Except StoreError (List Json))
  asked : List (List Text)

/-- Gives the prepared answers one after another, then answers from the documents. -/
def rehearsed (documents : List Json) : Resolver Rehearsal := fun ids =>
  ExceptT.mk fun ⟨answers, asked⟩ =>
    match answers with
    | [] => (.ok (select documents ids), ⟨[], asked ++ [ids]⟩)
    | answer :: rest => (answer.mapError .store, ⟨rest, asked ++ [ids]⟩)

end TwinGraph.Resolver
