import TwinGraph.Proofs.Client.Alike
import TwinGraph.Proofs.Client.Checking
import TwinGraph.Proofs.Client.Scripted
import TwinGraph.Proofs.Model.Exactness

/-! Putting a twin. It is written exactly if it conforms to its model, it is written as it was
handed in but for its id and its tag, and before that models are looked up and nothing else. -/
namespace TwinGraph

open Outcome

def Request.LooksUp (graph : Text) (request : Request) : Prop :=
  (∃ id, request = .query graph (.model id)) ∨ ∃ ids, request = .query graph (.modelsAmong ids)

def Request.Merges (request : Request) : Prop :=
  ∃ statement tokens, request.statement? = some statement ∧
    Cypher.lex statement.text = some tokens ∧ Cypher.Token.word "MERGE" ∈ tokens

/-- No token of the piece is the word, whatever is supplied in it. -/
def Cypher.Piece.mergeFree (p : Cypher.Piece) : Bool := p.tokens.all (· != .word "MERGE")

theorem Statement.merge_not_mem {statement : Statement}
    (hopening : ((Cypher.lex statement.opening.toList).getD []).all (· != .word "MERGE") = true)
    (hpieces : statement.pieces.all Cypher.Piece.mergeFree = true) :
    Cypher.Token.word "MERGE" ∉ statement.tokens := by
  intro h
  rw [tokens, List.mem_append] at h
  rcases h with h | h
  · exact absurd (List.all_eq_true.mp hopening _ h) (by decide)
  · obtain ⟨p, hp, h⟩ := List.mem_flatMap.mp h
    have hfree := List.all_eq_true.mp hpieces p hp
    exact absurd (List.all_eq_true.mp hfree _ h) (by decide)

theorem Statement.merge_not_mem_model (id : Text) :
    Cypher.Token.word "MERGE" ∉ (model id).tokens := by
  refine merge_not_mem ?_ ?_
  · simp only [opening]
    rw [String.toList_ofList]
    decide
  · have hid : (Cypher.Piece.literal id).mergeFree = true := rfl
    have hreturn : (Cypher.Piece.fixed " RETURN m").mergeFree = true := by decide
    rw [pieces, List.all_cons, List.all_cons, hid, hreturn]
    rfl

theorem Statement.merge_not_mem_modelsAmong (ids : List Text) :
    Cypher.Token.word "MERGE" ∉ (modelsAmong ids).tokens := by
  have hcomma : (Cypher.Piece.fixed ", ").mergeFree = true := by decide
  refine merge_not_mem ?_ ?_
  · simp only [opening]
    rw [String.toList_ofList]
    decide
  · have hreturn : (Cypher.Piece.fixed "] RETURN m").mergeFree = true := by decide
    rw [pieces, List.all_append, all_literals _ hcomma fun _ => rfl, List.all_cons, hreturn]
    rfl

theorem Request.LooksUp.not_merges {graph : Text} {request : Request} (h : request.LooksUp graph) :
    ¬ request.Merges := by
  rintro ⟨statement, tokens, hstatement, hlex, hword⟩
  rcases h with ⟨id, rfl⟩ | ⟨ids, rfl⟩ <;> cases hstatement
  · rw [Statement.lex_text _ rfl] at hlex
    cases hlex
    exact Statement.merge_not_mem_model id hword
  · rw [Statement.lex_text _ rfl] at hlex
    cases hlex
    exact Statement.merge_not_mem_modelsAmong ids hword

def Cypher.mergeTokens (document id : Text) : List Cypher.Token :=
  [.word "WITH", .literal document, .symbol ':', .symbol ':', .word "agtype", .word "AS",
    .word "twin", .word "MERGE", .symbol '(', .word "t", .symbol ':', .word "Twin",
    .symbol '\x7b', .quoted "$dtId", .symbol ':', .literal id, .symbol '\x7d', .symbol ')',
    .word "SET", .word "t", .symbol '=', .word "twin", .word "RETURN", .word "t"]

theorem Cypher.merge_mem (document id : Text) :
    Cypher.Token.word "MERGE" ∈ mergeTokens document id := by
  unfold mergeTokens
  simp only [List.mem_cons, true_or, or_true]

theorem Statement.lex_putTwin (id : Text) (document : Json) :
    Cypher.lex (putTwin id document).text = some (Cypher.mergeTokens document.render id) := by
  have hopening : (Cypher.lex "WITH ".toList).getD [] = [.word "WITH"] := by decide
  have hmerge : (Cypher.Piece.fixed "::agtype AS twin MERGE (t:Twin \x7b`$dtId`: ").tokens =
      [.symbol ':', .symbol ':', .word "agtype", .word "AS", .word "twin", .word "MERGE",
        .symbol '(', .word "t", .symbol ':', .word "Twin", .symbol '\x7b', .quoted "$dtId",
        .symbol ':'] := by decide
  have hset : (Cypher.Piece.fixed "\x7d) SET t = twin RETURN t").tokens =
      [.symbol '\x7d', .symbol ')', .word "SET", .word "t", .symbol '=', .word "twin",
        .word "RETURN", .word "t"] := by decide
  simp only [lex_text _ (show (putTwin id document).isNative = false from rfl), tokens, opening,
    pieces, List.flatMap_cons, hopening, hmerge, hset]
  rfl

namespace Client

variable {σ α : Type}

/-- The twin passes all checks, the last of them against the model that the store tells, and the
session is the one after the lookups that this takes. -/
structure Passes (c : Client σ) (id : Text) (twin : Fields Json) (state : σ)
    (session : Session σ) : Prop where
  ownId : Twin.checkId id twin = .ok ()
  conforms : ∃ model interface, Twin.modelId twin = .ok model ∧
    (c.interface model).run ⟨state, []⟩ = (.ok interface, session) ∧
    Twin.violations interface twin = []

theorem run_putTwin_of_passes (c : Client σ) (decoder : Decoder α) {id : Text}
    {twin : Fields Json} (tag : Text) {state : σ} {session : Session σ}
    (h : c.Passes id twin state session) :
    (c.putTwin decoder id (.object twin) tag).run ⟨state, []⟩ =
      (do
        match (← c.queryFirst (.putTwin id (Twin.stamped id tag twin))) >>=
            Row.vertexProperties? with
        | some properties => decode decoder (.object properties)
        | none => throw (.badResult (.noTwinReturned id)) : Action σ α).run session := by
  obtain ⟨hid, model, interface, hmodel, hrun, hnone⟩ := h
  unfold Client.putTwin
  dsimp only
  rw [run_bind, run_lift, hid]
  dsimp only [Except.mapError]
  rw [run_bind, run_lift, hmodel]
  dsimp only [Except.mapError]
  rw [run_bind, hrun]
  dsimp only
  exact congrArg (fun action : Action σ α => action.run session)
    (if_pos (List.isEmpty_iff.mpr hnone))

theorem run_putTwin_of_not_passes (c : Client σ) (decoder : Decoder α) {id : Text}
    {document : Json} (tag : Text) {state : σ}
    (h : ¬ ∃ twin session, document = .object twin ∧ c.Passes id twin state session) :
    ∃ e session, (c.putTwin decoder id document tag).run ⟨state, []⟩ = (.error e, session) ∧
      (session = ⟨state, []⟩ ∨
        ∃ model, session = ((c.interface model).run ⟨state, []⟩).2) := by
  unfold Client.putTwin
  cases document with
  | object twin =>
    dsimp only
    rw [run_bind, run_lift]
    cases hid : Twin.checkId id twin with
    | error fault => exact ⟨_, _, rfl, Or.inl rfl⟩
    | ok _ =>
      dsimp only [Except.mapError]
      rw [run_bind, run_lift]
      cases hmodel : Twin.modelId twin with
      | error fault => exact ⟨_, _, rfl, Or.inl rfl⟩
      | ok model =>
        dsimp only [Except.mapError]
        rw [run_bind]
        rcases hrun : (c.interface model).run ⟨state, []⟩ with ⟨result, session⟩
        have hsession : session = ((c.interface model).run ⟨state, []⟩).2 := by rw [hrun]
        cases result with
        | error e => exact ⟨e, session, rfl, Or.inr ⟨model, hsession⟩⟩
        | ok interface =>
          dsimp only
          rw [if_neg fun hempty => h ⟨twin, session, rfl, hid, model, interface, hmodel, hrun,
            List.isEmpty_iff.mp hempty⟩]
          exact ⟨_, session, rfl, Or.inr ⟨model, hsession⟩⟩
  | _ => exact ⟨_, _, rfl, Or.inl rfl⟩

theorem sent_of_passes (c : Client σ) (decoder : Decoder α) {id : Text} {twin : Fields Json}
    (tag : Text) {state : σ} {session : Session σ} (h : c.Passes id twin state session) :
    ((c.putTwin decoder id (.object twin) tag).run ⟨state, []⟩).2.sent =
      session.sent ++ [.query c.graphName (.putTwin id (Twin.stamped id tag twin))] := by
  rw [run_putTwin_of_passes c decoder tag h, state_bind,
    run_queryFirst c (Statement.not_breaksOut _ rfl rfl)]
  · rfl
  · intro row s
    split <;> rfl

theorem lookups_interface (c : Client σ) (hreader : c.reader = readInterfaces) (model : Text)
    (state : σ) : ∀ request ∈ ((c.interface model).run ⟨state, []⟩).2.sent,
      request.LooksUp c.graphName :=
  (c.logs_interface (asksOnly_of_eq hreader) (Or.inl ⟨model, rfl⟩) fun ids => Or.inr ⟨ids, rfl⟩).sent state

theorem sent_of_not_passes (c : Client σ) (hreader : c.reader = readInterfaces)
    (decoder : Decoder α) {id : Text} {document : Json} (tag : Text) {state : σ}
    (h : ¬ ∃ twin session, document = .object twin ∧ c.Passes id twin state session) :
    ∀ request ∈ ((c.putTwin decoder id document tag).run ⟨state, []⟩).2.sent,
      request.LooksUp c.graphName := by
  obtain ⟨e, session, hrun, rfl | ⟨model, rfl⟩⟩ := run_putTwin_of_not_passes c decoder tag h
  · rw [hrun]
    nofun
  · rw [hrun]
    exact c.lookups_interface hreader model state

/-- The store tells the interface of a model: its first reply starts with a vertex, whose document
is parsed with what further replies resolve. -/
def Tells (c : Client Script) (model : Text) (script : Script) (interface : Interface) : Prop :=
  ∃ row more vertex rounds interfaces session,
    Script.results script.head? = .ok (.ok row :: more) ∧ row.first? = some (.vertex vertex) ∧
    (readInterfaces rounds c.resolver [.object vertex.properties]).run
      ⟨script.tail, [.query c.graphName (.model model)]⟩ = (.ok interfaces, session) ∧
    interfaces.find? model = some interface

theorem interface_script {c : Client Script} (hreader : c.reader = readInterfaces)
    (hstore : c.store = Script.store) {model : Text} {script : Script} {interface : Interface} :
    (∃ session, (c.interface model).run ⟨script, []⟩ = (.ok interface, session)) ↔
      c.Tells model script interface := by
  constructor
  · rintro ⟨session', h⟩
    obtain ⟨document, session₁, hdocument, h⟩ := run_bind_eq_ok.mp h
    obtain ⟨⟨row, more, vertex, hrow, hvertex, rfl⟩, rfl⟩ :=
      (modelDocument_script hstore).mp hdocument
    obtain ⟨interfaces, session, hread, h⟩ := run_bind_eq_ok.mp h
    rw [c.run_readModels hreader, run_adapt_eq_ok] at hread
    split at h
    · next hfind =>
      cases h
      exact ⟨row, more, vertex, _, interfaces, session', hrow, hvertex, hread, hfind⟩
    · cases h
  · rintro ⟨row, more, vertex, rounds, interfaces, session, hrow, hvertex, hread, hfind⟩
    refine ⟨session, run_bind_eq_ok.mpr ⟨.object vertex.properties, _,
      (modelDocument_script hstore).mpr ⟨⟨row, more, vertex, hrow, hvertex, rfl⟩, rfl⟩,
      run_bind_eq_ok.mpr ⟨interfaces, session, ?_, ?_⟩⟩⟩
    · rw [c.run_readModels hreader, run_adapt_eq_ok]
      exact readInterfaces_script hstore hread
    · rw [hfind]
      rfl

/-- What a twin has to satisfy to be written: it says no other id than the one it is put under, it
names a model that the store tells, and each of its own properties conforms to that model. -/
structure Admits (c : Client Script) (id : Text) (twin : Fields Json) (script : Script) : Prop where
  ownId : ∀ given, Fields.find? Twin.idKey twin = some given → given = .string id
  conforms : ∃ metadata model interface,
    Fields.find? Twin.metadataKey twin = some (.object metadata) ∧
    Fields.find? Twin.modelKey metadata = some (.string model) ∧ model ≠ [] ∧
    c.Tells model script interface ∧
    ∀ entry ∈ twin, Twin.isSystemKey entry.1 = false → Twin.Conforms interface entry.1 entry.2

theorem passes_iff_admits {c : Client Script} (hreader : c.reader = readInterfaces)
    (hstore : c.store = Script.store) {id : Text} {twin : Fields Json} {script : Script} :
    (∃ session, c.Passes id twin script session) ↔ c.Admits id twin script := by
  constructor
  · rintro ⟨session, hid, model, interface, hmodel, hrun, hnone⟩
    obtain ⟨metadata, hmetadata, hname, hne⟩ := Twin.modelId_eq_ok.mp hmodel
    exact ⟨Twin.checkId_eq_ok.mp hid, metadata, model, interface, hmetadata, hname, hne,
      (interface_script hreader hstore).mp ⟨session, hrun⟩, Twin.violations_eq_nil.mp hnone⟩
  · rintro ⟨hid, metadata, model, interface, hmetadata, hname, hne, htells, hconforms⟩
    obtain ⟨session, hrun⟩ := (interface_script hreader hstore).mpr htells
    exact ⟨session, Twin.checkId_eq_ok.mpr hid, model, interface,
      Twin.modelId_eq_ok.mpr ⟨metadata, hmetadata, hname, hne⟩, hrun,
      Twin.violations_eq_nil.mpr hconforms⟩

theorem Passes.lookups {c : Client σ} (hreader : c.reader = readInterfaces) {id : Text}
    {twin : Fields Json} {state : σ} {session : Session σ} (h : c.Passes id twin state session) :
    ∀ request ∈ session.sent, request.LooksUp c.graphName := by
  obtain ⟨-, model, interface, -, hrun, -⟩ := h
  have hlookups := c.lookups_interface hreader model state
  rw [hrun] at hlookups
  exact hlookups

end Client

namespace Call

variable {α : Type} {c : Client Script} {settings : Settings}

theorem requests_putTwin (decoder : Decoder α) (id : Text) (document : Json) (tag : Text)
    (script : Script) : (putTwin id document tag).requests c decoder script =
      ((c.putTwin decoder id document tag).run ⟨script, []⟩).2.sent :=
  congrArg Session.sent (state_bind fun _ _ => rfl)

theorem lookups_of_not_admits (hc : Client.new Script.store settings = .ok c)
    (decoder : Decoder α) {id : Text} {document : Json} (tag : Text) {script : Script}
    (h : ¬ ∃ twin, document = .object twin ∧ c.Admits id twin script) :
    ∀ request ∈ (putTwin id document tag).requests c decoder script,
      request.LooksUp c.graphName := by
  have hreader := Client.reader_of_new hc
  have hstore := (Client.store_of_new hc).symm
  rw [requests_putTwin]
  refine c.sent_of_not_passes hreader decoder tag fun ⟨twin, session, hdocument, hpasses⟩ => ?_
  exact h ⟨twin, hdocument, (Client.passes_iff_admits hreader hstore).mp ⟨session, hpasses⟩⟩

theorem requests_of_admits (hc : Client.new Script.store settings = .ok c)
    (decoder : Decoder α) {id : Text} {twin : Fields Json} (tag : Text) {script : Script}
    (h : c.Admits id twin script) :
    ∃ lookups, (putTwin id (.object twin) tag).requests c decoder script =
        lookups ++ [.query c.graphName (.putTwin id (Twin.stamped id tag twin))] ∧
      ∀ request ∈ lookups, request.LooksUp c.graphName := by
  have hreader := Client.reader_of_new hc
  have hstore := (Client.store_of_new hc).symm
  obtain ⟨session, hpasses⟩ := (Client.passes_iff_admits hreader hstore).mpr h
  refine ⟨session.sent, ?_, hpasses.lookups hreader⟩
  rw [requests_putTwin]
  exact c.sent_of_passes decoder tag hpasses

/-- A twin is merged exactly if it is admitted. Otherwise models are looked up and nothing else; and
if it is, it is merged last, once, under its id and as it was handed in but for its id and tag. -/
theorem putTwin_merges_admitted (hc : Client.new Script.store settings = .ok c)
    (decoder : Decoder α) (id tag : Text) {document : Json} (hw : document.WellFormed)
    (script : Script) :
    ((∃ request ∈ (putTwin id document tag).requests c decoder script, request.Merges) ↔
      ∃ twin, document = .object twin ∧ c.Admits id twin script) ∧
    ((¬ ∃ twin, document = .object twin ∧ c.Admits id twin script) →
      ∀ request ∈ (putTwin id document tag).requests c decoder script,
        request.LooksUp c.graphName) ∧
    ∀ twin, document = .object twin → c.Admits id twin script →
      ∃ lookups statement content written,
        (putTwin id document tag).requests c decoder script =
          lookups ++ [.query c.graphName statement] ∧
        (∀ request ∈ lookups, request.LooksUp c.graphName ∧ ¬ request.Merges) ∧
        Cypher.lex statement.text = some (Cypher.mergeTokens content id) ∧
        Twin.Stamps id tag twin written ∧
        ∀ depth, document.nesting ≤ depth → Json.read depth content = some (.object written) := by
  refine ⟨⟨?_, ?_⟩, lookups_of_not_admits hc decoder tag, ?_⟩
  · rintro ⟨request, hrequest, hmerges⟩
    by_contra hnot
    exact (lookups_of_not_admits hc decoder tag hnot request hrequest).not_merges hmerges
  · rintro ⟨twin, rfl, hadmits⟩
    obtain ⟨lookups, hsent, -⟩ := requests_of_admits hc decoder tag hadmits
    have hlast := List.mem_append_right lookups (List.mem_singleton_self
      (Request.query c.graphName (.putTwin id (Twin.stamped id tag twin))))
    rw [← hsent] at hlast
    exact ⟨_, hlast, _, _, rfl, Statement.lex_putTwin _ _, Cypher.merge_mem _ _⟩
  · rintro twin rfl hadmits
    obtain ⟨lookups, hsent, hlookups⟩ := requests_of_admits hc decoder tag hadmits
    obtain ⟨written, hstamps, hread⟩ := Twin.read_stamped hw id tag
    exact ⟨lookups, _, _, written, hsent,
      fun request hrequest => ⟨hlookups request hrequest, (hlookups request hrequest).not_merges⟩,
      Statement.lex_putTwin _ _, hstamps, hread⟩

def modelReply (model : Json) : Reply :=
  .rows [[("m", Text.joined ["\x7b\"id\": 1, \"label\": \"Model\", \"properties\": ",
    model.render, "\x7d::vertex"])]] none

def hall : Fields Json :=
  [("$metadata", .object [("$model", .string "dtmi:example:Space;1")]),
    ("area", .number (.whole 12 (by decide)))]

theorem hall_is_merged :
    ∃ lookups statement content written,
      (putTwin "hall" (.object hall) "1").requests scripted Decoder.json [modelReply spaceModel] =
        lookups ++ [.query scripted.graphName statement] ∧
      Cypher.lex statement.text = some (Cypher.mergeTokens content "hall") ∧
      Twin.Stamps "hall" "1" hall written ∧ Json.read 2 content = some (.object written) := by
  have hc : Client.new Script.store .default = .ok scripted := dif_pos _
  have hw : (Json.object hall).WellFormed := by decide
  have h := putTwin_merges_admitted hc Decoder.json "hall" "1" hw [modelReply spaceModel]
  have hsent : .query scripted.graphName (.putTwin "hall" (Twin.stamped "hall" "1" hall)) ∈
      (putTwin "hall" (.object hall) "1").requests scripted Decoder.json
        [modelReply spaceModel] := by decide +kernel
  obtain ⟨twin, htwin, hadmits⟩ := h.1.mp
    ⟨_, hsent, _, _, rfl, Statement.lex_putTwin _ _, Cypher.merge_mem _ _⟩
  cases htwin
  obtain ⟨lookups, statement, content, written, hrequests, -, hlex, hstamps, hread⟩ :=
    h.2.2 hall rfl hadmits
  exact ⟨lookups, statement, content, written, hrequests, hlex, hstamps, hread 2 (by decide)⟩

end Call
end TwinGraph
