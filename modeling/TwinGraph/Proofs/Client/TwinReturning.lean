import TwinGraph.Proofs.Client.TwinRegistry

/-! Twins come back as they were put. From a store that keeps twins a client gets what was accepted
last under an id, whatever else was put before and after. -/
namespace TwinGraph

open Outcome

variable {σ : Type}

structure Upsert where
  id : Text
  document : Json
  tag : Text
deriving DecidableEq

/-- Printing the document and reading it again is safe: each name is there once, and its brackets
are not nested too deep for the store, nor for the client once they stand in a vertex. -/
structure Upsert.Printable (u : Upsert) (depth : Nat) : Prop where
  wellFormed : u.document.WellFormed
  stored : u.document.nesting ≤ depth
  told : u.document.nesting + 2 ≤ Cell.maxDepth

def Upsert.Puts (u : Upsert) (returned : Json) : Prop :=
  ∃ twin written, u.document = .object twin ∧ returned = .object written ∧
    returned = Twin.stamped u.id u.tag twin ∧ Twin.Stamps u.id u.tag twin written

namespace Client

def upsert (c : Client σ) (u : Upsert) (state : σ) : Except ClientError Json × σ :=
  let (result, session) := (c.putTwin Decoder.json u.id u.document u.tag).run ⟨state, []⟩
  (result, session.store)

def upsertAll (c : Client σ) : List Upsert → σ → List (Upsert × Except ClientError Json) × σ
  | [], state => ([], state)
  | u :: us, state =>
    let (result, next) := c.upsert u state
    let (results, last) := upsertAll c us next
    ((u, result) :: results, last)

def fetch (c : Client σ) (id : Text) (state : σ) : Except ClientError Json :=
  ((c.getTwin Decoder.json id).run ⟨state, []⟩).1

/-- The twin that was put last under the id of those that were accepted, and what was returned. -/
def lastAccepted (id : Text) (results : List (Upsert × Except ClientError Json)) :
    Option (Upsert × Json) :=
  (results.filterMap fun (u, result) =>
    if u.id = id then result.toOption.map (u, ·) else none).getLast?

section
variable {c : Client σ} {depth : Nat} {print : Vertex → Text} {vertexOf : σ → Text → Option Vertex}

theorem lastAccepted_cons (id : Text) (u : Upsert) (result : Except ClientError Json)
    (results : List (Upsert × Except ClientError Json)) :
    lastAccepted id ((u, result) :: results) = (lastAccepted id results).or
      (if u.id = id then result.toOption.map (u, ·) else none) := by
  unfold lastAccepted
  rw [List.filterMap_cons]
  dsimp only
  cases (if u.id = id then result.toOption.map (u, ·) else none) with
  | none => rw [Option.or_none]
  | some found => rw [List.getLast?_cons, Option.or_some]

theorem row_of_vertex {v : Vertex} (hprint : (Cell.vertex v).Printed (print v))
    (hid : Signed v.id) (hw : (Json.object v.properties).WellFormed)
    (hdepth : (Json.object v.properties).nesting + 2 ≤ Cell.maxDepth) :
    Row.ofTexts [("t", print v)] = .ok [("t", .vertex v)] := by
  unfold Row.ofTexts
  rw [Cell.ofText_vertex hprint hid hw hdepth]
  rfl

/-- What is returned for an id is the vertex of that id as the client reads it, and so nothing else
of the store matters. -/
theorem fetch_eq (hkeeps : c.store.KeepsTwins c.graphName depth print vertexOf) (id : Text)
    (state : σ) :
    c.fetch id state =
      ClientError.ofStore (Results.first? ((vertexOf state id).toList.map fun v =>
        Row.ofTexts [("t", print v)])) >>= fun row =>
      match row >>= Row.vertexProperties? with
      | some properties => decode Decoder.json (.object properties)
      | none => .error (.notFound (.twin id)) := by
  have htells := hkeeps.tells _ id state (Statement.lex_twin id)
  have hask : (c.ask (.twin id)).run ⟨state, []⟩ = (.ok _, ⟨_, [.query c.graphName (.twin id)]⟩) :=
    run_ask (Prod.ext htells rfl)
  unfold fetch getTwin
  rw [run_bind, run_queryFirst c (Statement.not_breaksOut _ rfl rfl), hask]
  dsimp only [bind, Except.bind]
  cases ClientError.ofStore (Results.first? _) with
  | error e => rfl
  | ok row =>
    dsimp only
    cases row.bind Row.vertexProperties? <;> rfl

theorem fetch_of_vertex (hkeeps : c.store.KeepsTwins c.graphName depth print vertexOf)
    {id : Text} {state : σ} {v : Vertex} (hv : vertexOf state id = some v) (hid : Signed v.id)
    (hw : (Json.object v.properties).WellFormed)
    (hdepth : (Json.object v.properties).nesting + 2 ≤ Cell.maxDepth) :
    c.fetch id state = .ok (.object v.properties) := by
  rw [fetch_eq hkeeps, hv, Option.toList_some, List.map_singleton,
    row_of_vertex (hkeeps.prints v) hid hw hdepth]
  rfl

theorem fetch_congr (hkeeps : c.store.KeepsTwins c.graphName depth print vertexOf)
    {id : Text} {state state' : σ} (h : vertexOf state id = vertexOf state' id) :
    c.fetch id state = c.fetch id state' := by
  rw [fetch_eq hkeeps, fetch_eq hkeeps, h]

/-- What putting a twin comes to. Either it passes, and the vertex of its id is the only one that
changes, or it does not pass, and no vertex changes. -/
inductive Settles (c : Client σ) (vertexOf : σ → Text → Option Vertex) (u : Upsert) (state : σ) :
    Except ClientError Json × σ → Prop where
  | accepted {twin : Fields Json} {session : Session σ} {v : Vertex} {after : σ}
      (hdocument : u.document = .object twin) (hpasses : c.Passes u.id twin state session)
      (hproperties : v.properties = Twin.stampedFields u.id u.tag twin) (hid : Signed v.id)
      (hafter : vertexOf after = Function.update (vertexOf state) u.id (some v)) :
      Settles c vertexOf u state (.ok (Twin.stamped u.id u.tag twin), after)
  | rejected {e : ClientError} {after : σ}
      (hnot : ¬ ∃ twin session, u.document = .object twin ∧ c.Passes u.id twin state session)
      (hafter : vertexOf after = vertexOf state) : Settles c vertexOf u state (.error e, after)

theorem settles_of_passes (hkeeps : c.store.KeepsTwins c.graphName depth print vertexOf)
    (hreader : c.reader = readInterfaces) {u : Upsert} (hu : u.Printable depth)
    {twin : Fields Json} (hdocument : u.document = .object twin) {state : σ}
    {session : Session σ} (h : c.Passes u.id twin state session) :
    Settles c vertexOf u state (c.upsert u state) := by
  obtain ⟨model, interface, -, hrun, -⟩ := h.conforms
  have hsame : vertexOf session.store = vertexOf state := by
    have hleaves := hkeeps.leaves_interface hreader model ⟨state, []⟩
    rwa [hrun] at hleaves
  obtain ⟨hw, hstored, htold⟩ := hu
  rw [hdocument] at hw hstored htold
  -- the store reads the literal as what was stamped, and the client reads it off the vertex again
  have hstamps := Twin.stamps_stampedFields hw u.id u.tag
  have hnesting := Twin.nesting_stamped u.id u.tag twin
  obtain ⟨v, after, hquery, hproperties, hid, hvertex⟩ := hkeeps.merges _ _ _ _ session.store
    (Statement.lex_putTwin u.id (Twin.stamped u.id u.tag twin))
    (Json.read_render hstamps.wellFormed (hnesting.trans hstored)) hstamps.id
  have hrow : Row.ofTexts [("t", print v)] = .ok [("t", .vertex v)] := by
    refine row_of_vertex (hkeeps.prints v) hid ?_ ?_ <;> rw [hproperties]
    · exact hstamps.wellFormed
    · exact (Nat.add_le_add_right hnesting 2).trans htold
  have hupsert : c.upsert u state = (.ok (Twin.stamped u.id u.tag twin), after) := by
    unfold upsert
    rw [hdocument, run_putTwin_of_passes c _ _ h, run_bind,
      run_queryFirst c (Statement.not_breaksOut _ rfl rfl), run_ask hquery, hrow,
      Twin.stamped_eq, ← hproperties]
    rfl
  rw [hsame] at hvertex
  rw [hupsert]
  exact .accepted hdocument h hproperties hid hvertex

theorem settles_upsert (hkeeps : c.store.KeepsTwins c.graphName depth print vertexOf)
    (hreader : c.reader = readInterfaces) {u : Upsert} (hu : u.Printable depth) (state : σ) :
    Settles c vertexOf u state (c.upsert u state) := by
  by_cases h : ∃ twin session, u.document = .object twin ∧ c.Passes u.id twin state session
  · obtain ⟨twin, session, hdocument, hpasses⟩ := h
    exact settles_of_passes hkeeps hreader hu hdocument hpasses
  · obtain ⟨e, session, hrun, hsession⟩ := run_putTwin_of_not_passes c Decoder.json u.tag h
    have hupsert : c.upsert u state = (.error e, session.store) := by
      unfold upsert
      rw [hrun]
    rw [hupsert]
    refine .rejected h ?_
    rcases hsession with rfl | ⟨model, rfl⟩
    · rfl
    · exact hkeeps.leaves_interface hreader model ⟨state, []⟩

namespace Settles

variable {u : Upsert} {state : σ} {outcome : Except ClientError Json × σ}

theorem accepts_iff (h : Settles c vertexOf u state outcome) :
    (∃ returned, outcome.1 = .ok returned) ↔
      ∃ twin session, u.document = .object twin ∧ c.Passes u.id twin state session := by
  cases h with
  | accepted hdocument hpasses =>
    exact iff_of_true ⟨_, rfl⟩ ⟨_, _, hdocument, hpasses⟩
  | rejected hnot => exact iff_of_false (fun ⟨_, he⟩ => nomatch he) hnot

theorem puts (h : Settles c vertexOf u state outcome) (hu : u.Printable depth) {returned : Json}
    (hok : outcome.1 = .ok returned) : u.Puts returned := by
  cases h with
  | @accepted twin _ _ _ hdocument =>
    cases hok
    have hw := hu.wellFormed
    rw [hdocument] at hw
    exact ⟨twin, _, hdocument, rfl, rfl, Twin.stamps_stampedFields hw u.id u.tag⟩
  | rejected => cases hok

theorem fetch_self (hkeeps : c.store.KeepsTwins c.graphName depth print vertexOf)
    (h : Settles c vertexOf u state outcome) (hu : u.Printable depth) {returned : Json}
    (hok : outcome.1 = .ok returned) : c.fetch u.id outcome.2 = .ok returned := by
  cases h with
  | @accepted twin _ v after hdocument _ hproperties hid hafter =>
    cases hok
    obtain ⟨hw, -, htold⟩ := hu
    rw [hdocument] at hw htold
    rw [Twin.stamped_eq, ← hproperties]
    refine fetch_of_vertex hkeeps ?_ hid ?_ ?_
    · rw [hafter, Function.update_self]
    · rw [hproperties]
      exact (Twin.stamps_stampedFields hw u.id u.tag).wellFormed
    · rw [hproperties]
      exact (Nat.add_le_add_right (Twin.nesting_stamped u.id u.tag twin) 2).trans htold
  | rejected => cases hok

theorem vertexOf_eq (h : Settles c vertexOf u state outcome) {id : Text}
    (hother : id ≠ u.id ∨ ∀ returned, outcome.1 ≠ .ok returned) :
    vertexOf outcome.2 id = vertexOf state id := by
  cases h with
  | accepted _ _ _ _ hafter =>
    rcases hother with hne | hnot
    · rw [hafter, Function.update_of_ne hne]
    · exact absurd rfl (hnot _)
  | rejected _ hafter => rw [hafter]

end Settles

/-- What is true of one twin put after the other is true of each id by itself. -/
theorem upsertAll_returns (hkeeps : c.store.KeepsTwins c.graphName depth print vertexOf)
    (hreader : c.reader = readInterfaces) {us : List Upsert}
    (hprintable : ∀ u ∈ us, u.Printable depth) (state : σ) (id : Text) :
    (∀ u returned, lastAccepted id (c.upsertAll us state).1 = some (u, returned) →
      u ∈ us ∧ u.id = id ∧ u.Puts returned ∧
        c.fetch id (c.upsertAll us state).2 = .ok returned) ∧
    (lastAccepted id (c.upsertAll us state).1 = none →
      vertexOf (c.upsertAll us state).2 id = vertexOf state id) := by
  induction us generalizing state with
  | nil => exact ⟨nofun, fun _ => rfl⟩
  | cons w us ih =>
    rw [List.forall_mem_cons] at hprintable
    obtain ⟨hw, hus⟩ := hprintable
    have hstep := settles_upsert hkeeps hreader hw state
    obtain ⟨hsome, hnone⟩ := ih hus (c.upsert w state).2
    simp only [upsertAll, lastAccepted_cons]
    cases hlast : lastAccepted id (c.upsertAll us (c.upsert w state).2).1 with
    | some found =>
      rw [Option.some_or]
      refine ⟨fun u returned hfound => ?_, nofun⟩
      obtain ⟨hu, hrest⟩ := hsome u returned (hlast.trans hfound)
      exact ⟨List.mem_cons_of_mem w hu, hrest⟩
    | none =>
      -- nothing was accepted under the id since, so what the step made of its vertex is still there
      have hkept := hnone hlast
      rw [Option.none_or]
      by_cases hid : w.id = id
      · subst hid
        rw [if_pos rfl]
        cases hresult : (c.upsert w state).1 with
        | ok returned =>
          refine ⟨fun u returned' hfound => ?_, nofun⟩
          cases hfound
          refine ⟨List.mem_cons_self, rfl, hstep.puts hw hresult, ?_⟩
          rw [fetch_congr hkeeps hkept]
          exact hstep.fetch_self hkeeps hw hresult
        | error e =>
          refine ⟨nofun, fun _ => hkept.trans (hstep.vertexOf_eq (Or.inr fun returned => ?_))⟩
          rw [hresult]
          nofun
      · rw [if_neg hid]
        exact ⟨nofun, fun _ => hkept.trans (hstep.vertexOf_eq (Or.inl (Ne.symm hid)))⟩

end

/-- A twin that passes its checks is returned as it was put, and so it is whenever it is asked for
until another one is accepted under its id. Nothing else changes what is returned for an id. -/
theorem twins_return_as_put {store : Store σ} {settings : Settings} {c : Client σ}
    (hc : Client.new store settings = .ok c) {depth : Nat} {print : Vertex → Text}
    {vertexOf : σ → Text → Option Vertex}
    (hkeeps : store.KeepsTwins c.graphName depth print vertexOf) :
    (∀ u : Upsert, u.Printable depth → ∀ state,
      ((∃ returned, (c.upsert u state).1 = .ok returned) ↔
        ∃ twin session, u.document = .object twin ∧ c.Passes u.id twin state session) ∧
      ∀ returned, (c.upsert u state).1 = .ok returned →
        u.Puts returned ∧ c.fetch u.id (c.upsert u state).2 = .ok returned) ∧
    ∀ us : List Upsert, (∀ u ∈ us, u.Printable depth) → ∀ state id,
      (∀ u returned, lastAccepted id (c.upsertAll us state).1 = some (u, returned) →
        u ∈ us ∧ u.id = id ∧ u.Puts returned ∧
          c.fetch id (c.upsertAll us state).2 = .ok returned) ∧
      (lastAccepted id (c.upsertAll us state).1 = none →
        vertexOf (c.upsertAll us state).2 id = vertexOf state id ∧
          c.fetch id (c.upsertAll us state).2 = c.fetch id state) := by
  have hreader := reader_of_new hc
  obtain rfl : store = c.store := store_of_new hc
  constructor
  · intro u hu state
    have hstep := settles_upsert hkeeps hreader hu state
    exact ⟨hstep.accepts_iff, fun returned hok =>
      ⟨hstep.puts hu hok, hstep.fetch_self hkeeps hu hok⟩⟩
  · intro us hus state id
    obtain ⟨hsome, hnone⟩ := upsertAll_returns hkeeps hreader hus state id
    exact ⟨hsome, fun hlast => ⟨hnone hlast, fetch_congr hkeeps (hnone hlast)⟩⟩

def annexId : Text := "O'Hare \"$$\" \\ \x7b::vertex"

def emptied : Fields Json :=
  [("$metadata", .object [("$model", .string "dtmi:example:Space;1"), ("note", .string annexId)])]

def renovation : List Upsert :=
  [⟨annexId, .object Call.hall, "1"⟩, ⟨"hall", .object Call.hall, "2"⟩,
    ⟨annexId, .object emptied, "3"⟩, ⟨annexId, .object [], "4"⟩]

theorem renovation_is_returned :
    ∃ annex hall, ((TwinRegistry.client [spaceModel]).fetch annexId
        ((TwinRegistry.client [spaceModel]).upsertAll renovation []).2) = .ok annex ∧
      ((TwinRegistry.client [spaceModel]).fetch "hall"
        ((TwinRegistry.client [spaceModel]).upsertAll renovation []).2) = .ok hall ∧
      Upsert.Puts ⟨annexId, .object emptied, "3"⟩ annex ∧
      Upsert.Puts ⟨"hall", .object Call.hall, "2"⟩ hall := by
  have hsafe : ∀ u ∈ renovation, u.document.WellFormed ∧
      u.document.nesting ≤ TwinRegistry.depth ∧ u.document.nesting + 2 ≤ Cell.maxDepth := by decide
  have hprintable : ∀ u ∈ renovation, u.Printable TwinRegistry.depth := fun u hu =>
    ⟨(hsafe u hu).1, (hsafe u hu).2.1, (hsafe u hu).2.2⟩
  have hlast :
      lastAccepted annexId ((TwinRegistry.client [spaceModel]).upsertAll renovation []).1 =
        some (⟨annexId, .object emptied, "3"⟩, Twin.stamped annexId "3" emptied) ∧
      lastAccepted "hall" ((TwinRegistry.client [spaceModel]).upsertAll renovation []).1 =
        some (⟨"hall", .object Call.hall, "2"⟩, Twin.stamped "hall" "2" Call.hall) := by
    decide +kernel
  have hreturns := (twins_return_as_put (TwinRegistry.client_new [spaceModel])
    (TwinRegistry.keepsTwins [spaceModel] _)).2 renovation hprintable []
  obtain ⟨-, -, hannex, hfetchAnnex⟩ := (hreturns annexId).1 _ _ hlast.1
  obtain ⟨-, -, hhall, hfetchHall⟩ := (hreturns "hall").1 _ _ hlast.2
  exact ⟨_, _, hfetchAnnex, hfetchHall, hannex, hhall⟩

end Client
end TwinGraph
