import TwinGraph.Client.Relationships
import TwinGraph.Proofs.Client.Checking
import TwinGraph.Proofs.Client.Scripted
import TwinGraph.Proofs.Client.Tokens

/-! Putting a relationship. What the document says of its name, its target, its source and its id is
checked or overwritten, so it agrees with the edge that it is written to. -/
namespace TwinGraph

open Outcome

theorem Fields.has_eq_true {α : Type} {key : Text} {fields : Fields α} :
    has key fields = true ↔ key ∈ fields.names := by
  rw [has, ← Bool.not_eq_false, Option.isSome_eq_false_iff, Option.isNone_iff_eq_none,
    find?_eq_none, not_not]

namespace Relationship

/-- The document names the relationship and its target, and says no other id and no other source
than where it is put. -/
structure Agrees (source id : Text) (relationship : Fields Json) (name : RelationshipName)
    (target : Text) : Prop where
  named : Fields.find? nameKey relationship = some (.string name.text)
  targeted : Fields.find? targetKey relationship = some (.string target)
  ownId : ∀ given, Fields.find? idKey relationship = some given → given = .string id
  ownSource : ∀ given, Fields.find? sourceKey relationship = some given → given = .string source

theorem readName_eq_ok {s : Text} {name : RelationshipName} :
    readName s = .ok name ↔ s = name.text := by
  unfold readName RelationshipName.ofText?
  constructor
  · intro h
    split at h
    · next hplain =>
      split at hplain
      · cases hplain
        cases h
        rfl
      · cases hplain
    · cases h
  · rintro rfl
    rw [dif_pos name.plain]

theorem requiredText_eq_ok {key s : Text} {relationship : Fields Json} :
    requiredText key relationship = .ok s ↔ Fields.find? key relationship = some (.string s) := by
  unfold requiredText
  split
  · next found hfound => simp [hfound]
  · next hother => exact ⟨nofun, fun hfound => absurd hfound (hother s)⟩

theorem checkText_eq_ok {key expected : Text} {relationship : Fields Json} {u : Unit} :
    checkText key expected relationship = .ok u ↔
      ∀ given, Fields.find? key relationship = some given → given = .string expected := by
  unfold checkText
  split
  · next hnone => simp [hnone]
  · next given hsome =>
    by_cases h : given = .string expected <;> simp [hsome, h]

theorem check_eq_ok {source id target : Text} {relationship : Fields Json}
    {name : RelationshipName} :
    check source id relationship = .ok (name, target) ↔
      Agrees source id relationship name target := by
  constructor
  · intro h
    obtain ⟨s, hs, h⟩ := bind_eq_ok.mp h
    obtain ⟨read, hread, h⟩ := bind_eq_ok.mp h
    obtain ⟨found, hfound, h⟩ := bind_eq_ok.mp h
    obtain ⟨_, hid, h⟩ := bind_eq_ok.mp h
    obtain ⟨_, hsource, h⟩ := bind_eq_ok.mp h
    cases h
    rw [readName_eq_ok.mp hread] at hs
    exact ⟨requiredText_eq_ok.mp hs, requiredText_eq_ok.mp hfound, checkText_eq_ok.mp hid,
      checkText_eq_ok.mp hsource⟩
  · rintro ⟨hname, htarget, hid, hsource⟩
    refine bind_eq_ok.mpr ⟨name.text, requiredText_eq_ok.mpr hname, ?_⟩
    refine bind_eq_ok.mpr ⟨name, readName_eq_ok.mpr rfl, ?_⟩
    refine bind_eq_ok.mpr ⟨target, requiredText_eq_ok.mpr htarget, ?_⟩
    refine bind_eq_ok.mpr ⟨(), checkText_eq_ok.mpr hid, ?_⟩
    exact bind_eq_ok.mpr ⟨(), checkText_eq_ok.mpr hsource, rfl⟩

/-- What was handed in, under its id, its source and with the tag, and with every other field as it
was. Of these the name and the target are those of the edge. -/
structure Stamps (source id tag : Text) (relationship : Fields Json) (name : RelationshipName)
    (target : Text) (written : Fields Json) : Prop where
  wellFormed : (Json.object written).WellFormed
  ofId : Fields.find? idKey written = some (.string id)
  ofSource : Fields.find? sourceKey written = some (.string source)
  ofTag : Fields.find? Twin.tagKey written = some (.string tag)
  ofName : Fields.find? nameKey written = some (.string name.text)
  ofTarget : Fields.find? targetKey written = some (.string target)
  others : ∀ key, key ≠ idKey → key ≠ sourceKey → key ≠ Twin.tagKey →
    Fields.find? key written = Fields.find? key relationship

def stampedFields (source id tag : Text) (relationship : Fields Json) : Fields Json :=
  Fields.put Twin.tagKey (.string tag)
    (Fields.put sourceKey (.string source) (Fields.put idKey (.string id) relationship))

theorem find?_stampedFields (source id tag : Text) (relationship : Fields Json) {key : Text}
    (hid : key ≠ idKey) (hsource : key ≠ sourceKey) (htag : key ≠ Twin.tagKey) :
    Fields.find? key (stampedFields source id tag relationship) =
      Fields.find? key relationship := by
  rw [stampedFields, Fields.find?_put_of_ne htag, Fields.find?_put_of_ne hsource,
    Fields.find?_put_of_ne hid]

theorem stamps_stampedFields {source id target : Text} {relationship : Fields Json}
    {name : RelationshipName} (hw : (Json.object relationship).WellFormed)
    (h : Agrees source id relationship name target) (tag : Text) :
    Stamps source id tag relationship name target (stampedFields source id tag relationship) where
  wellFormed := ((hw.put (Json.wellFormed_string id) idKey).put
    (Json.wellFormed_string source) sourceKey).put (Json.wellFormed_string tag) Twin.tagKey
  ofId := by
    rw [stampedFields, Fields.find?_put_of_ne (by decide), Fields.find?_put_of_ne (by decide),
      Fields.find?_put_self]
  ofSource := by
    rw [stampedFields, Fields.find?_put_of_ne (by decide), Fields.find?_put_self]
  ofTag := Fields.find?_put_self _ _ _
  ofName :=
    (find?_stampedFields source id tag relationship (by decide) (by decide) (by decide)).trans
      h.named
  ofTarget :=
    (find?_stampedFields source id tag relationship (by decide) (by decide) (by decide)).trans
      h.targeted
  others _ := find?_stampedFields source id tag relationship

theorem nesting_stamped (source id tag : Text) (relationship : Fields Json) :
    (stamped source id tag relationship).nesting ≤ (Json.object relationship).nesting :=
  (Json.nesting_put Twin.tagKey tag _).trans
    ((Json.nesting_put sourceKey source _).trans (Json.nesting_put idKey id relationship))

theorem read_stamped {source id target : Text} {relationship : Fields Json}
    {name : RelationshipName} (hw : (Json.object relationship).WellFormed)
    (h : Agrees source id relationship name target) (tag : Text) :
    ∃ written, Stamps source id tag relationship name target written ∧
      ∀ depth, (Json.object relationship).nesting ≤ depth →
        Json.read depth (stamped source id tag relationship).render = some (.object written) := by
  have hstamps := stamps_stampedFields hw h tag
  exact ⟨_, hstamps, fun depth hdepth =>
    Json.read_render hstamps.wellFormed ((nesting_stamped source id tag relationship).trans hdepth)⟩

structure Carries (row : Row) (edge : Edge) : Prop where
  first : row.first? = some (.edge edge)
  id : idKey ∈ edge.properties.names
  target : targetKey ∈ edge.properties.names

theorem ofRow?_eq_some {row : Row} {properties : Json} :
    ofRow? row = some properties ↔
      ∃ edge, Carries row edge ∧ properties = .object edge.properties := by
  constructor
  · intro h
    obtain ⟨edge, hedge, h⟩ := Option.bind_eq_some_iff.mp h
    obtain ⟨cell, hfirst, hcell⟩ := Option.bind_eq_some_iff.mp hedge
    split at h
    · next hhas =>
      cases h
      rw [Bool.and_eq_true, Fields.has_eq_true, Fields.has_eq_true] at hhas
      cases cell with
      | edge e =>
        cases hcell
        exact ⟨edge, ⟨hfirst, hhas.1, hhas.2⟩, rfl⟩
      | _ => cases hcell
    · cases h
  · rintro ⟨edge, ⟨hfirst, hid, htarget⟩, rfl⟩
    unfold ofRow?
    rw [hfirst]
    refine if_pos ?_
    rw [Fields.has_eq_true.mpr hid, Fields.has_eq_true.mpr htarget]
    rfl

end Relationship

namespace Cypher

def endTokens (var id : Text) : List Token :=
  [.symbol '(', .word var, .symbol ':', .word "Twin", .symbol '\x7b', .quoted "$dtId", .symbol ':',
    .literal id, .symbol '\x7d', .symbol ')']

/-- The tokens of a statement that puts a relationship: the edge of the name and the id is merged
between the two twins, and then it has the properties of the document. -/
def relationshipTokens (document source target name id : Text) : List Token :=
  [.word "WITH", .literal document, .symbol ':', .symbol ':', .word "agtype", .word "AS",
    .word "relationship", .word "MATCH"] ++
  endTokens "source" source ++ [.symbol ','] ++ endTokens "target" target ++
  [.word "MERGE", .symbol '(', .word "source", .symbol ')', .symbol '-', .symbol '[', .word "rel",
    .symbol ':', .word name, .symbol '\x7b', .quoted "$relationshipId", .symbol ':', .literal id,
    .symbol '\x7d', .symbol ']', .symbol '-', .symbol '>', .symbol '(', .word "target",
    .symbol ')', .word "SET", .word "rel", .symbol '=', .word "relationship", .word "RETURN",
    .word "rel"]

end Cypher

theorem Statement.lex_putRelationship (source target : Text) (name : RelationshipName) (id : Text)
    (document : Json) :
    Cypher.lex (putRelationship source target name id document).text =
      some (Cypher.relationshipTokens document.render source target name.text id) := by
  have hopening : (Cypher.lex "WITH ".toList).getD [] = [.word "WITH"] := by decide
  have hsource :
      (Cypher.Piece.fixed "::agtype AS relationship MATCH (source:Twin \x7b`$dtId`: ").tokens =
      [.symbol ':', .symbol ':', .word "agtype", .word "AS", .word "relationship", .word "MATCH",
        .symbol '(', .word "source", .symbol ':', .word "Twin", .symbol '\x7b', .quoted "$dtId",
        .symbol ':'] := by decide
  have htarget : (Cypher.Piece.fixed "\x7d),(target:Twin \x7b`$dtId`: ").tokens =
      [.symbol '\x7d', .symbol ')', .symbol ',', .symbol '(', .word "target", .symbol ':',
        .word "Twin", .symbol '\x7b', .quoted "$dtId", .symbol ':'] := by decide
  have hmerge : (Cypher.Piece.fixed "\x7d) MERGE (source)-[rel").tokens =
      [.symbol '\x7d', .symbol ')', .word "MERGE", .symbol '(', .word "source", .symbol ')',
        .symbol '-', .symbol '[', .word "rel"] := by decide
  have hkey : (Cypher.Piece.fixed " \x7b`$relationshipId`: ").tokens =
      [.symbol '\x7b', .quoted "$relationshipId", .symbol ':'] := by decide
  have hset : (Cypher.Piece.fixed "\x7d]->(target) SET rel = relationship RETURN rel").tokens =
      [.symbol '\x7d', .symbol ']', .symbol '-', .symbol '>', .symbol '(', .word "target",
        .symbol ')', .word "SET", .word "rel", .symbol '=', .word "relationship", .word "RETURN",
        .word "rel"] := by decide
  simp only [lex_text _ (show (putRelationship source target name id document).isNative = false
    from rfl), tokens, opening, pieces, List.flatMap_cons, hopening, hsource, htarget, hmerge, hkey,
    hset]
  rfl

namespace Client

variable {σ α : Type}

theorem run_putRelationship_of_agrees (c : Client σ) (decoder : Decoder α) {source id target : Text}
    {relationship : Fields Json} {name : RelationshipName}
    (h : Relationship.Agrees source id relationship name target) (tag : Text)
    (session : Session σ) :
    (c.putRelationship decoder source id (.object relationship) tag).run session =
      (do
        match (← c.queryFirst (.putRelationship source target name id
            (Relationship.stamped source id tag relationship))) >>= Relationship.ofRow? with
        | some properties => decode decoder properties
        | none => throw (.notFound (.oneTwinOf source target)) : Action σ α).run session := by
  unfold putRelationship
  dsimp only
  rw [run_bind, run_lift, Relationship.check_eq_ok.mpr h]
  rfl

theorem run_putRelationship_of_not_agrees (c : Client σ) (decoder : Decoder α) {source id : Text}
    {document : Json}
    (h : ¬ ∃ relationship name target, document = .object relationship ∧
      Relationship.Agrees source id relationship name target) (tag : Text) (session : Session σ) :
    ∃ fault, (c.putRelationship decoder source id document tag).run session =
      (.error (.badArgument fault), session) := by
  unfold putRelationship
  cases document with
  | object relationship =>
    dsimp only
    rw [run_bind, run_lift]
    cases hcheck : Relationship.check source id relationship with
    | error fault => exact ⟨fault, rfl⟩
    | ok found =>
      exact absurd ⟨relationship, found.1, found.2, rfl, Relationship.check_eq_ok.mp hcheck⟩ h
  | _ => exact ⟨_, rfl⟩

def answer (c : Client σ) (statement : Statement) (session : Session σ) :
    Except StoreError Results :=
  ((c.store.query c.graphName statement.text).run session.store).1

theorem sent_of_agrees (c : Client σ) (decoder : Decoder α) {source id target : Text}
    {relationship : Fields Json} {name : RelationshipName}
    (h : Relationship.Agrees source id relationship name target) (tag : Text)
    (session : Session σ) :
    ((c.putRelationship decoder source id (.object relationship) tag).run session).2.sent =
      session.sent ++ [.query c.graphName (.putRelationship source target name id
        (Relationship.stamped source id tag relationship))] := by
  rw [run_putRelationship_of_agrees c decoder h, state_bind,
    run_queryFirst c (Statement.not_breaksOut _ rfl rfl)]
  · rfl
  · intro row s
    split <;> rfl

theorem queryFirst_eq_ok (c : Client σ) {statement : Statement}
    (hmark : Cypher.breaksOut statement.text = false) (session : Session σ) (row : Row) :
    ((c.queryFirst statement).run session).1 = .ok (some row) ↔
      ∃ more, c.answer statement session = .ok (.ok row :: more) := by
  rw [run_queryFirst c hmark, ClientError.ofStore, mapError_eq_ok, bind_eq_ok]
  constructor
  · rintro ⟨results, hresults, hfirst⟩
    obtain ⟨more, rfl⟩ := Results.first?_eq_some.mp hfirst
    exact ⟨more, hresults⟩
  · rintro ⟨more, hmore⟩
    exact ⟨_, hmore, Results.first?_eq_some.mpr ⟨more, rfl⟩⟩

theorem decode_eq_ok {decoder : Decoder α} {value : Json} {a : α} :
    decode decoder value = .ok a ↔ decoder value = some a := by
  unfold decode
  cases decoder value <;> simp

/-- A relationship is put with success exactly if an edge that carries its id and its target comes
back, in the form that is wanted. -/
theorem putRelationship_eq_ok (c : Client σ) (decoder : Decoder α) {source id target : Text}
    {relationship : Fields Json} {name : RelationshipName}
    (h : Relationship.Agrees source id relationship name target) (tag : Text)
    (session : Session σ) {a : α} :
    ((c.putRelationship decoder source id (.object relationship) tag).run session).1 = .ok a ↔
      ∃ row more edge,
        c.answer (.putRelationship source target name id
          (Relationship.stamped source id tag relationship)) session = .ok (.ok row :: more) ∧
        Relationship.Carries row edge ∧ decoder (.object edge.properties) = some a := by
  -- the first row of the answer is all that is left to look at
  have hfirst := c.queryFirst_eq_ok (Statement.not_breaksOut (.putRelationship source target name id
    (Relationship.stamped source id tag relationship)) rfl rfl) session
  rw [run_putRelationship_of_agrees c decoder h, run_bind]
  rcases hrun : (c.queryFirst (.putRelationship source target name id
    (Relationship.stamped source id tag relationship))).run session with ⟨result, session'⟩
  rw [hrun] at hfirst
  dsimp only at hfirst ⊢
  constructor
  · intro hok
    cases result with
    | error e => cases hok
    | ok row? =>
      dsimp only at hok
      split at hok
      · next properties hproperties =>
        obtain ⟨row, rfl, hrow⟩ := Option.bind_eq_some_iff.mp hproperties
        obtain ⟨more, hanswer⟩ := (hfirst row).mp rfl
        obtain ⟨edge, hcarries, rfl⟩ := Relationship.ofRow?_eq_some.mp hrow
        exact ⟨row, more, edge, hanswer, hcarries, decode_eq_ok.mp hok⟩
      · cases hok
  · rintro ⟨row, more, edge, hanswer, hcarries, hdecode⟩
    obtain rfl := (hfirst row).mpr ⟨more, hanswer⟩
    have hrow : (some row >>= Relationship.ofRow?) = some (.object edge.properties) :=
      Relationship.ofRow?_eq_some.mpr ⟨edge, hcarries, rfl⟩
    dsimp only
    rw [hrow]
    exact decode_eq_ok.mpr hdecode

/-- One statement is sent exactly if the document agrees with where it is put, and otherwise the
argument is refused. The edge of that statement is the one that the written properties tell: of
their name, under their id, from their source to their target. -/
theorem put_relationship_agrees_with_its_edge (c : Client σ) (decoder : Decoder α)
    (source id tag : Text) {document : Json} (hw : document.WellFormed) (session : Session σ) :
    ((∃ statement,
        ((c.putRelationship decoder source id document tag).run session).2.sent =
          session.sent ++ [.query c.graphName statement]) ↔
      ∃ relationship name target, document = .object relationship ∧
        Relationship.Agrees source id relationship name target) ∧
    ((¬ ∃ relationship name target, document = .object relationship ∧
        Relationship.Agrees source id relationship name target) →
      ∃ fault, (c.putRelationship decoder source id document tag).run session =
        (.error (.badArgument fault), session)) ∧
    ∀ relationship name target, document = .object relationship →
      Relationship.Agrees source id relationship name target →
      ∃ statement content written,
        ((c.putRelationship decoder source id document tag).run session).2.sent =
          session.sent ++ [.query c.graphName statement] ∧
        Cypher.lex statement.text =
          some (Cypher.relationshipTokens content source target name.text id) ∧
        Relationship.Stamps source id tag relationship name target written ∧
        (∀ depth, document.nesting ≤ depth →
          Json.read depth content = some (.object written)) ∧
        ∀ a, ((c.putRelationship decoder source id document tag).run session).1 = .ok a ↔
          ∃ row more edge, c.answer statement session = .ok (.ok row :: more) ∧
            Relationship.Carries row edge ∧ decoder (.object edge.properties) = some a := by
  have hrefused : (¬ ∃ relationship name target, document = .object relationship ∧
      Relationship.Agrees source id relationship name target) →
      ∃ fault, (c.putRelationship decoder source id document tag).run session =
        (.error (.badArgument fault), session) :=
    fun h => run_putRelationship_of_not_agrees c decoder h tag session
  refine ⟨⟨?_, ?_⟩, hrefused, ?_⟩
  · rintro ⟨statement, hsent⟩
    by_contra hnot
    obtain ⟨fault, hrun⟩ := hrefused hnot
    rw [hrun] at hsent
    exact List.cons_ne_nil _ _ (List.self_eq_append_right.mp hsent)
  · rintro ⟨relationship, name, target, rfl, hagrees⟩
    exact ⟨_, sent_of_agrees c decoder hagrees tag session⟩
  · rintro relationship name target rfl hagrees
    obtain ⟨written, hstamps, hread⟩ := Relationship.read_stamped hw hagrees tag
    exact ⟨_, _, written, sent_of_agrees c decoder hagrees tag session,
      Statement.lex_putRelationship _ _ _ _ _, hstamps, hread,
      fun a => putRelationship_eq_ok c decoder hagrees tag session⟩

/-- A document whose target and tag look like parts of a statement. -/
def hostileRelationship : Fields Json :=
  [("$relationshipName", .string "contains"), ("$targetId", .string "'\x7d) DETACH DELETE $$"),
    ("$etag", .string "\\' RETURN 1"), ("weight", .number (.whole 3 (by decide)))]

def edgeStore : Store Unit where
  query _ _ := pure [.ok [("rel", .edge ⟨7, "contains", 1, 2,
    [("$relationshipId", .string "it's"), ("$targetId", .string "hall")]⟩)]]
  execute _ _ := pure 1
  executeSql _ := pure 0
  rounds _ := 0

def edgeClient : Client Unit := ⟨edgeStore, .default, Settings.default_valid, readInterfaces⟩

theorem hostile_relationship_agrees_with_its_edge :
    ∃ statement content written,
      ((edgeClient.putRelationship Decoder.json "$$" "it's" (.object hostileRelationship)
        "1").run ⟨(), []⟩).2.sent = [.query edgeClient.graphName statement] ∧
      Cypher.lex statement.text = some (Cypher.relationshipTokens content "$$"
        "'\x7d) DETACH DELETE $$" "contains" "it's") ∧
      Relationship.Stamps "$$" "it's" "1" hostileRelationship ⟨"contains", by decide⟩
        "'\x7d) DETACH DELETE $$" written ∧
      Json.read 1 content = some (.object written) ∧
      ((edgeClient.putRelationship Decoder.json "$$" "it's" (.object hostileRelationship)
        "1").run ⟨(), []⟩).1 =
          .ok (.object [("$relationshipId", .string "it's"), ("$targetId", .string "hall")]) := by
  have hw : (Json.object hostileRelationship).WellFormed := by decide
  have hagrees : Relationship.Agrees "$$" "it's" hostileRelationship ⟨"contains", by decide⟩
      "'\x7d) DETACH DELETE $$" := ⟨by decide, by decide, nofun, nofun⟩
  obtain ⟨-, -, hput⟩ := put_relationship_agrees_with_its_edge edgeClient Decoder.json "$$"
    "it's" "1" hw ⟨(), []⟩
  obtain ⟨statement, content, written, hsent, hlex, hstamps, hread, hok⟩ :=
    hput hostileRelationship _ _ rfl hagrees
  refine ⟨statement, content, written, hsent, hlex, hstamps, hread 1 (by decide), ?_⟩
  exact (hok _).mpr ⟨_, [], _, rfl, ⟨rfl, by decide, by decide⟩, rfl⟩

end Client
end TwinGraph
