import TwinGraph.Proofs.Client.Wording

/-! The tokens of the statements. Supplied texts come back as the contents of literals and
properties, whatever they are, and everything else is the same for all statements of one form. -/
namespace TwinGraph

open Cypher

namespace Cypher.Token

def content? : Token → Option Text
  | literal content => some content
  | property key => some key
  | _ => none

def erased : Token → Token
  | literal _ => literal []
  | property _ => property []
  | token => token

end Cypher.Token

theorem mem_literals {contents : List Text} {p : Piece} (h : p ∈ literals contents) :
    p = .fixed ", " ∨ ∃ content, p = .literal content := by
  induction contents with
  | nil => cases h
  | cons content contents ih =>
    cases contents with
    | nil => exact Or.inr ⟨content, List.mem_singleton.mp h⟩
    | cons next contents =>
      rw [literals, List.map_cons, List.map_cons, List.intersperse_cons_cons, List.mem_cons,
        List.mem_cons] at h
      rcases h with h | h | h
      · exact Or.inr ⟨content, h⟩
      · exact Or.inl h
      · exact ih h

theorem all_literals (check : Piece → Bool) (hcomma : check (.fixed ", ") = true)
    (hliteral : ∀ content, check (.literal content) = true) (contents : List Text) :
    (literals contents).all check = true := by
  rw [List.all_eq_true]
  intro p hp
  rcases mem_literals hp with rfl | ⟨content, rfl⟩
  · exact hcomma
  · exact hliteral content

theorem all_properties (check : Piece → Bool) (h : ∀ key, check (.property key) = true)
    (keys : List Text) : (keys.map Piece.property).all check = true := by
  rw [List.all_map]
  exact List.all_eq_true.mpr fun key _ => h key

theorem PatchClause.sound_pieces (clause : PatchClause) :
    clause.pieces.all Piece.sound = true := by
  have hkeys := all_properties Piece.sound fun _ => rfl
  cases clause <;>
  · simp only [pieces, List.cons_append, List.all_cons, List.all_append, hkeys, Piece.sound]
    repeat rw [String.toList_ofList]
    decide

def PatchClause.contents : PatchClause → List Text
  | assign keys value => keys ++ [value.render]
  | erase keys => keys

def Cypher.Piece.contents (p : Piece) : List Text := p.tokens.filterMap Token.content?

theorem Cypher.Piece.filterMap_flatMap (ps : List Piece) :
    (ps.flatMap tokens).filterMap Token.content? = ps.flatMap contents :=
  List.filterMap_flatMap

def Cypher.Piece.supplied? : Piece → Option Text
  | literal content => some content
  | property key => some key
  | fixed _ | label _ => none

/-- The piece has no literals and properties but the supplied ones. -/
def Cypher.Piece.quiet : Piece → Bool
  | fixed text => ((lex text.toList).getD []).all (·.content?.isNone)
  | _ => true

theorem Cypher.Piece.flatMap_contents {ps : List Piece} (h : ps.all quiet = true) :
    ps.flatMap contents = ps.filterMap supplied? := by
  induction ps with
  | nil => rfl
  | cons p ps ih =>
    rw [List.all_cons, Bool.and_eq_true] at h
    rw [List.flatMap_cons, ih h.2]
    cases p with
    | fixed text =>
      have hnone : (fixed text).contents = [] := List.filterMap_eq_nil_iff.mpr fun token ht =>
        Option.isNone_iff_eq_none.mp (List.all_eq_true.mp h.1 token ht)
      rw [hnone, List.nil_append, List.filterMap_cons_none rfl]
    | _ => rfl

theorem PatchClause.quiet_pieces (clause : PatchClause) :
    clause.pieces.all Piece.quiet = true := by
  have hkeys := all_properties Piece.quiet fun _ => rfl
  cases clause <;>
  · simp only [pieces, List.cons_append, List.all_cons, List.all_append, hkeys, Piece.quiet]
    repeat rw [String.toList_ofList]
    decide

theorem PatchClause.contents_pieces (clause : PatchClause) :
    clause.pieces.flatMap Piece.contents = clause.contents := by
  have hkeys : ∀ keys : List Text, (keys.map Piece.property).filterMap Piece.supplied? = keys := by
    intro keys
    rw [List.filterMap_map]
    exact List.filterMap_some
  rw [Piece.flatMap_contents clause.quiet_pieces]
  cases clause with
  | assign keys value =>
    rw [pieces, contents, List.cons_append, List.filterMap_cons_none rfl, List.filterMap_append,
      hkeys]
    rfl
  | erase keys => rw [pieces, contents, List.filterMap_cons_none rfl, hkeys]

theorem quiet_literals (contents : List Text) : (literals contents).all Piece.quiet = true :=
  all_literals Piece.quiet (by simp only [Piece.quiet]; rw [String.toList_ofList]; decide)
    (fun _ => rfl) contents

theorem supplied_literals (contents : List Text) :
    (literals contents).filterMap Piece.supplied? = contents := by
  induction contents with
  | nil => rfl
  | cons content contents ih =>
    cases contents with
    | nil => rfl
    | cons next contents =>
      have hcons : literals (content :: next :: contents) =
          .literal content :: .fixed ", " :: literals (next :: contents) := rfl
      have hfirst : (Piece.literal content).supplied? = some content := rfl
      rw [hcons, List.filterMap_cons_some hfirst, List.filterMap_cons_none rfl, ih]

def PatchClause.shape : PatchClause → PatchClause
  | assign keys _ => assign (keys.map fun _ => []) .null
  | erase keys => erase (keys.map fun _ => [])

namespace Statement

def isNative : Statement → Bool
  | native _ => true
  | _ => false

theorem sound_pieces (statement : Statement) : statement.pieces.all Piece.sound = true := by
  have hliterals := all_literals Piece.sound
    (by simp only [Piece.sound]; rw [String.toList_ofList]; decide) fun _ => rfl
  cases statement with
  | patchTwin id clauses tag =>
    have hclauses : (clauses.flatMap PatchClause.pieces).all Piece.sound = true := by
      rw [List.all_flatMap]
      exact List.all_eq_true.mpr fun clause _ => clause.sound_pieces
    simp only [pieces, List.cons_append, List.all_cons, List.all_append, hclauses, Piece.sound]
    repeat rw [String.toList_ofList]
    decide
  | relationships source name =>
    cases name <;>
    · simp only [pieces, List.all_cons, Piece.sound]
      repeat rw [String.toList_ofList]
      decide
  | _ =>
    simp only [pieces, List.all_append, hliterals, List.all_cons, Piece.sound,
      RelationshipName.plain]
    repeat rw [String.toList_ofList]
    decide +kernel

def isPatch : Statement → Bool
  | patchTwin _ _ _ => true
  | _ => false

theorem markFree_pieces (statement : Statement) (h : statement.isPatch = false) :
    statement.pieces.all Piece.markFree = true := by
  have hliterals := all_literals Piece.markFree
    (by simp only [Piece.markFree]; rw [String.toList_ofList]; decide) fun _ => rfl
  cases statement with
  | patchTwin id clauses tag => cases h
  | relationships source name =>
    cases name <;>
    · simp only [pieces, List.all_cons, Piece.markFree]
      repeat rw [String.toList_ofList]
      decide
  | _ =>
    simp only [pieces, List.all_append, hliterals, List.all_cons, Piece.markFree,
      RelationshipName.plain]
    repeat rw [String.toList_ofList]
    decide

def tokens (statement : Statement) : List Token :=
  (lex statement.opening.toList).getD [] ++ statement.pieces.flatMap Piece.tokens

theorem lex_opening (statement : Statement) (h : statement.isNative = false) :
    lex statement.opening.toList = some ((lex statement.opening.toList).getD []) := by
  have hsome : (lex statement.opening.toList).isSome = true := by
    cases statement with
    | native text => cases h
    | _ =>
      simp only [opening]
      rw [String.toList_ofList]
      decide
  obtain ⟨ts, hts⟩ := Option.isSome_iff_exists.mp hsome
  rw [hts, Option.getD_some]

/-- Every statement of the client's own wording has tokens, whatever is supplied. -/
theorem lex_text (statement : Statement) (h : statement.isNative = false) :
    lex statement.text = some statement.tokens := by
  rw [text_pieces]
  exact Piece.lex_flatMap (statement.lex_opening h)
    (List.all_eq_true.mp statement.sound_pieces)

/-- Only property keys can bring the mark into a statement. -/
theorem not_breaksOut (statement : Statement) (h : statement.isNative = false)
    (hpatch : statement.isPatch = false) : breaksOut statement.text = false := by
  have hopening : doubled false statement.opening.toList = false ∧
      endsWithDollar false statement.opening.toList = false := by
    cases statement with
    | native text => cases h
    | _ =>
      simp only [opening]
      rw [String.toList_ofList]
      decide
  have hpieces := Piece.breaksOut_flatMap (List.all_eq_true.mp (statement.markFree_pieces hpatch))
  rw [breaksOut, contains_mark] at hpieces
  rw [text_pieces, breaksOut, contains_mark, doubled_append, hopening.1, hopening.2, hpieces]
  rfl

def contents : Statement → List Text
  | twin id | deleteTwin id => ["$dtId", id]
  | putTwin id document => [document.render, id]
  | patchTwin id clauses tag =>
    "$dtId".toList :: id :: (clauses.flatMap PatchClause.contents ++ ["$etag".toList, tag])
  | relationship source id => [source, id]
  | relationships source name => source :: name.toList
  | incoming target => [target, "$relationshipId", "$dtId"]
  | putRelationship source target _ id document => [document.render, source, target, id]
  | deleteRelationship source _ id => [source, id]
  | model id | deleteModel id => ["@id", id]
  | models => []
  | modelsAmong ids => "@id".toList :: ids
  | createModels documents => documents.map Json.render
  | linkModel id parent => ["@id", id, "@id", parent]
  | native _ => []

def leading : Statement → List Text
  | twin _ | patchTwin _ _ _ | deleteTwin _ => ["$dtId"]
  | model _ | deleteModel _ | modelsAmong _ | linkModel _ _ => ["@id"]
  | _ => []

theorem contents_opening (statement : Statement) (h : statement.isNative = false) :
    ((lex statement.opening.toList).getD []).filterMap Token.content? = statement.leading := by
  cases statement with
  | native text => cases h
  | _ =>
    simp only [opening, leading]
    repeat rw [String.toList_ofList]
    decide

def isQuiet : Statement → Bool
  | patchTwin _ _ _ | incoming _ | linkModel _ _ => false
  | _ => true

theorem quiet_pieces (statement : Statement) (h : statement.isQuiet = true) :
    statement.pieces.all Piece.quiet = true := by
  cases statement with
  | patchTwin | incoming | linkModel => cases h
  | relationships source name =>
    cases name <;>
    · simp only [pieces, List.all_cons, Piece.quiet]
      repeat rw [String.toList_ofList]
      decide
  | _ =>
    simp only [pieces, List.all_append, quiet_literals, List.all_cons, Piece.quiet]
    repeat rw [String.toList_ofList]
    decide +kernel

theorem contents_pieces (statement : Statement) (h : statement.isNative = false) :
    statement.leading ++ statement.pieces.flatMap Piece.contents = statement.contents := by
  cases statement with
  | native text => cases h
  | patchTwin id clauses tag =>
    have hclauses : (clauses.flatMap PatchClause.pieces).flatMap Piece.contents =
        clauses.flatMap PatchClause.contents := by
      rw [List.flatMap_assoc]
      congr 1
      funext clause
      exact clause.contents_pieces
    have hset : (Piece.fixed " SET t.`$etag` = ").contents = ["$etag".toList] := by decide
    have hreturn : (Piece.fixed " RETURN t").contents = [] := by decide
    simp only [leading, pieces, contents, List.flatMap_cons, List.flatMap_append, hclauses, hset,
      hreturn]
    rfl
  | incoming target =>
    have hreturn : (Piece.fixed
        "\x7d) RETURN rel['$relationshipId'], source['$dtId'], label(rel)").contents =
        ["$relationshipId".toList, "$dtId".toList] := by decide
    simp only [leading, pieces, contents, List.flatMap_cons, hreturn]
    rfl
  | linkModel id parent =>
    have hand : (Piece.fixed " AND m2['@id'] = ").contents = ["@id".toList] := by decide
    have hlink : (Piece.fixed " CREATE (m)-[:_extends]->(m2)").contents = [] := by decide
    simp only [leading, pieces, contents, List.flatMap_cons, hand, hlink]
    rfl
  | relationships source name =>
    rw [Piece.flatMap_contents (quiet_pieces _ rfl)]
    cases name <;> rfl
  | modelsAmong ids =>
    rw [Piece.flatMap_contents (quiet_pieces _ rfl), pieces, List.filterMap_append,
      supplied_literals]
    exact congrArg _ (List.append_nil ids)
  | createModels documents =>
    rw [Piece.flatMap_contents (quiet_pieces _ rfl), pieces, List.filterMap_append,
      supplied_literals]
    exact List.append_nil _
  | _ =>
    rw [Piece.flatMap_contents (quiet_pieces _ rfl)]
    rfl

theorem contents_tokens (statement : Statement) (h : statement.isNative = false) :
    statement.tokens.filterMap Token.content? = statement.contents := by
  rw [tokens, List.filterMap_append, contents_opening _ h, Piece.filterMap_flatMap,
    contents_pieces _ h]

/-- The statement with nothing supplied: the same wording with empty texts. -/
def shape : Statement → Statement
  | twin _ => twin []
  | putTwin _ _ => putTwin [] .null
  | patchTwin _ clauses _ => patchTwin [] (clauses.map PatchClause.shape) []
  | deleteTwin _ => deleteTwin []
  | relationship _ _ => relationship [] []
  | relationships _ name => relationships [] (name.map fun _ => [])
  | incoming _ => incoming []
  | putRelationship _ _ name _ _ => putRelationship [] [] name [] .null
  | deleteRelationship _ name _ => deleteRelationship [] name []
  | model _ => model []
  | models => models
  | modelsAmong ids => modelsAmong (ids.map fun _ => [])
  | createModels documents => createModels (documents.map fun _ => .null)
  | linkModel _ _ => linkModel [] []
  | deleteModel _ => deleteModel []
  | native text => native text

end Statement

namespace Cypher.Piece

def blank : Piece → Piece
  | literal _ => literal []
  | property _ => property []
  | piece => piece

theorem erased_tokens (p : Piece) : p.tokens.map Token.erased = p.blank.tokens.map Token.erased := by
  cases p <;> rfl

theorem erased_flatMap (ps : List Piece) :
    (ps.flatMap tokens).map Token.erased = ((ps.map blank).flatMap tokens).map Token.erased := by
  induction ps with
  | nil => rfl
  | cons p ps ih =>
    rw [List.flatMap_cons, List.map_append, List.map_cons, List.flatMap_cons, List.map_append, ih,
      erased_tokens]

end Cypher.Piece

theorem blank_literals {as bs : List Text} (h : as.length = bs.length) :
    (literals as).map Piece.blank = (literals bs).map Piece.blank := by
  induction as generalizing bs with
  | nil =>
    cases bs with
    | nil => rfl
    | cons b bs => cases h
  | cons a as ih =>
    cases bs with
    | nil => cases h
    | cons b bs =>
      have hlength : as.length = bs.length := Nat.succ.inj h
      cases as <;> cases bs
      · rfl
      · cases hlength
      · cases hlength
      · next a' as b' bs =>
        have hcons : ∀ (c d : Text) (cs : List Text), (literals (c :: d :: cs)).map Piece.blank =
            .literal [] :: .fixed ", " :: (literals (d :: cs)).map Piece.blank := fun _ _ _ => rfl
        rw [hcons, hcons, ih hlength]

theorem PatchClause.blank_pieces (clause : PatchClause) :
    clause.pieces.map Piece.blank = clause.shape.pieces.map Piece.blank := by
  have hproperties : ∀ keys : List Text, (keys.map Piece.property).map Piece.blank =
      ((keys.map fun _ => []).map Piece.property).map Piece.blank := by
    intro keys
    rw [List.map_map, List.map_map, List.map_map]
    rfl
  cases clause with
  | assign keys value =>
    rw [pieces, shape, pieces, List.cons_append, List.cons_append, List.map_cons, List.map_cons,
      List.map_append, List.map_append, hproperties]
    rfl
  | erase keys => rw [pieces, shape, pieces, List.map_cons, List.map_cons, hproperties]

namespace Statement

theorem blank_pieces (statement : Statement) :
    statement.pieces.map Piece.blank = statement.shape.pieces.map Piece.blank := by
  cases statement with
  | patchTwin id clauses tag =>
    have hclauses : (clauses.flatMap PatchClause.pieces).map Piece.blank =
        ((clauses.map PatchClause.shape).flatMap PatchClause.pieces).map Piece.blank := by
      rw [List.map_flatMap, List.flatMap_map, List.map_flatMap]
      congr 1
      funext clause
      exact clause.blank_pieces
    rw [shape, pieces, pieces, List.cons_append, List.cons_append, List.map_cons, List.map_cons,
      List.map_append, List.map_append, hclauses]
    rfl
  | relationships source name => cases name <;> rfl
  | modelsAmong ids =>
    rw [shape, pieces, pieces, List.map_append, List.map_append,
      blank_literals (List.length_map _).symm]
  | createModels documents =>
    have hlength : (documents.map Json.render).length =
        ((documents.map fun _ => Json.null).map Json.render).length := by simp
    rw [shape, pieces, pieces, List.map_append, List.map_append, blank_literals hlength]
  | _ => rfl

theorem opening_shape (statement : Statement) : statement.opening = statement.shape.opening := by
  cases statement <;> rfl

/-- But for what is supplied, the tokens of a statement are those of its form. -/
theorem erased_tokens (statement : Statement) :
    statement.tokens.map Token.erased = statement.shape.tokens.map Token.erased := by
  rw [tokens, tokens, List.map_append, List.map_append, Piece.erased_flatMap,
    Piece.erased_flatMap statement.shape.pieces, blank_pieces, opening_shape]

end Statement
end TwinGraph
