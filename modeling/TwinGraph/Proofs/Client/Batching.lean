import TwinGraph.Proofs.Client.Answering
import TwinGraph.Proofs.Client.Sentences

/-! Lookups of models in batches. The ids are cut into parts, each part is one lookup, and the first
reply that breaks off is the end of the run. -/
namespace TwinGraph

open Outcome

/-- A list in parts of a size: none is empty or longer, and only the last can be shorter. -/
structure Portioned {α : Type} (size : Nat) (as : List α) (parts : List (List α)) : Prop where
  whole : parts.flatten = as
  nonempty : ∀ part ∈ parts, part ≠ []
  bounded : ∀ part ∈ parts, part.length ≤ size
  full : ∀ part ∈ parts.dropLast, part.length = size

section
variable {α : Type}

theorem fillParts_eq (size room : Nat) (as : List α) :
    fillParts size room as = (as.take room, inParts size (as.drop room)) := by
  induction as generalizing room with
  | nil => cases room <;> rfl
  | cons a as ih =>
    cases room with
    | zero => rfl
    | succ room => rw [fillParts, ih, List.take_succ_cons, List.drop_succ_cons]

theorem inParts_of_ne_nil {size : Nat} (hsize : 0 < size) {as : List α} (hne : as ≠ []) :
    inParts size as = as.take size :: inParts size (as.drop size) := by
  obtain ⟨a, as, rfl⟩ := List.exists_cons_of_ne_nil hne
  obtain ⟨room, rfl⟩ : ∃ room, size = room + 1 := ⟨size - 1, by omega⟩
  have hparts : inParts (room + 1) (a :: as) =
      (a :: (fillParts (room + 1) room as).1) :: (fillParts (room + 1) room as).2 := rfl
  rw [hparts, fillParts_eq, List.take_succ_cons, List.drop_succ_cons]

theorem Portioned.nil (size : Nat) : Portioned size ([] : List α) [] :=
  ⟨rfl, nofun, nofun, nofun⟩

theorem Portioned.cons {size : Nat} {part rest : List α} {parts : List (List α)} (hne : part ≠ [])
    (hlength : part.length ≤ size) (hfull : rest ≠ [] → part.length = size)
    (h : Portioned size rest parts) : Portioned size (part ++ rest) (part :: parts) where
  whole := by rw [List.flatten_cons, h.whole]
  nonempty := List.forall_mem_cons.mpr ⟨hne, h.nonempty⟩
  bounded := List.forall_mem_cons.mpr ⟨hlength, h.bounded⟩
  full := by
    cases parts with
    | nil => exact nofun
    | cons next parts =>
      have hrest : rest ≠ [] := by
        rintro rfl
        exact h.nonempty next List.mem_cons_self (List.flatten_eq_nil_iff.mp h.whole next
          List.mem_cons_self)
      rw [List.dropLast_cons_cons]
      exact List.forall_mem_cons.mpr ⟨hfull hrest, h.full⟩

theorem Portioned.eq_nil {size : Nat} {parts : List (List α)} (h : Portioned size [] parts) :
    parts = [] := by
  cases parts with
  | nil => rfl
  | cons part parts =>
    exact absurd (List.flatten_eq_nil_iff.mp h.whole part List.mem_cons_self)
      (h.nonempty part List.mem_cons_self)

theorem portioned_inParts {size : Nat} (hsize : 0 < size) (as : List α) :
    Portioned size as (inParts size as) := by
  -- on the length, since each part takes the whole of its size off the front
  induction hlength : as.length using Nat.strongRecOn generalizing as with
  | _ n ih =>
    by_cases hne : as = []
    · subst hne
      exact .nil size
    · have hpos := List.length_pos_iff.mpr hne
      rw [inParts_of_ne_nil hsize hne]
      conv_lhs => rw [← List.take_append_drop size as]
      refine .cons ?_ ?_ ?_ (ih (as.drop size).length ?_ _ rfl)
      · exact List.ne_nil_of_length_pos (by rw [List.length_take]; omega)
      · exact List.length_take_le size as
      · intro hrest
        have hmore := List.length_pos_iff.mpr hrest
        rw [List.length_drop] at hmore
        rw [List.length_take]
        omega
      · rw [List.length_drop]
        omega

end

inductive Client.MadeOf {σ : Type} (store : Store σ) : Client σ → Prop where
  | new {settings c} (h : Client.new store settings = .ok c) : MadeOf store c
  | withReader {c} (reader : ModelReader (Session σ)) (h : MadeOf store c) :
      MadeOf store (c.withReader reader)

theorem Client.MadeOf.store_eq {σ : Type} {store : Store σ} {c : Client σ} (h : c.MadeOf store) :
    c.store = store := by
  induction h with
  | new h => exact (store_of_new h).symm
  | withReader _ _ ih => exact ih

namespace Script

/-- The first thing in the reply that is no row: the store refuses the request, or it fails behind
some rows. -/
def BreaksOff (reply : Option Reply) (e : StoreError) : Prop :=
  results reply = .error e ∨
    ∃ (rows : List Row) (rest : Results), results reply = .ok (rows.map .ok ++ .error e :: rest)

/-- The first replies are made of these rows and nothing else. A script that is used up has replies
without rows. -/
def Tells (script : Script) (rows : List (List Row)) : Prop :=
  ∀ k (h : k < rows.length), results script[k]? = .ok (rows[k].map .ok)

theorem Tells.nil (script : Script) : script.Tells [] := fun _ h => absurd h (Nat.not_lt_zero _)

theorem Tells.cons {script : Script} {first : List Row} {rows : List (List Row)}
    (hfirst : results script.head? = .ok (first.map .ok)) (h : Tells script.tail rows) :
    script.Tells (first :: rows) := by
  intro k hk
  cases k with
  | zero => rwa [← List.head?_eq_getElem?]
  | succ k =>
    have hrest := h k (Nat.lt_of_succ_lt_succ hk)
    rwa [List.getElem?_tail] at hrest

theorem rows_or_error (results : Results) : (∃ rows : List Row, results = rows.map .ok) ∨
    ∃ (e : StoreError) (rows : List Row) (rest : Results),
      results = rows.map .ok ++ .error e :: rest := by
  induction results with
  | nil => exact Or.inl ⟨[], rfl⟩
  | cons item results ih =>
    cases item with
    | error e => exact Or.inr ⟨e, [], results, rfl⟩
    | ok row =>
      rcases ih with ⟨rows, rfl⟩ | ⟨e, rows, rest, rfl⟩
      · exact Or.inl ⟨row :: rows, rfl⟩
      · exact Or.inr ⟨e, row :: rows, rest, rfl⟩

theorem rows_or_breaksOff (reply : Option Reply) :
    (∃ rows : List Row, results reply = .ok (rows.map .ok)) ∨ ∃ e, BreaksOff reply e := by
  cases hreply : results reply with
  | error e => exact Or.inr ⟨e, Or.inl hreply⟩
  | ok items =>
    rcases rows_or_error items with ⟨rows, rfl⟩ | ⟨e, rows, rest, rfl⟩
    · exact Or.inl ⟨rows, rfl⟩
    · exact Or.inr ⟨e, Or.inr ⟨rows, rest, hreply⟩⟩

theorem vertexDocuments_of_breaksOff {reply : Option Reply} {e : StoreError}
    (h : BreaksOff reply e) : (results reply >>= Results.vertexDocuments) = .error e := by
  rcases h with h | ⟨rows, rest, h⟩
  · rw [h]
    rfl
  · rw [h]
    refine Results.vertexDocuments_eq_error.mpr (mapM_eq_error ?_ rfl)
    rw [List.forall_mem_map]
    exact fun row _ => ⟨row, rfl⟩

end Script

def Request.AsksFor (graph : Text) (ids : List Text) (request : Request) : Prop :=
  ∃ statement, request = .query graph statement ∧
    Cypher.lex statement.text = some (Cypher.modelsAmongTokens ids)

theorem Request.asksFor_modelsAmong (graph : Text) (ids : List Text) :
    (Request.query graph (.modelsAmong ids)).AsksFor graph ids :=
  ⟨_, rfl, Statement.lex_modelsAmong ids⟩

/-- How far the lookups got: those that were sent are the first of the parts, all replies but
perhaps the last are made of rows, and the result is what these show or the error in the last. -/
structure Advances (script : Script) (parts asked : List (List Text)) (rows : List (List Row))
    (result : Except StoreError (List (List Json))) : Prop where
  inOrder : asked <+: parts
  told : script.Tells rows
  ended : (asked = parts ∧ rows.length = asked.length ∧
      result = .ok (rows.map (·.filterMap Row.document?))) ∨
    ∃ e, asked.length = rows.length + 1 ∧ Script.BreaksOff script[rows.length]? e ∧
      result = .error e

namespace Advances

variable {script : Script} {part : List Text} {parts asked : List (List Text)}
  {rows : List (List Row)} {result : Except StoreError (List (List Json))}

theorem nil (script : Script) : Advances script [] [] [] (.ok []) :=
  ⟨List.nil_prefix, .nil _, Or.inl ⟨rfl, rfl, rfl⟩⟩

theorem stop {e : StoreError} (h : Script.BreaksOff script.head? e) (part : List Text)
    (parts : List (List Text)) : Advances script (part :: parts) [part] [] (.error e) :=
  ⟨List.prefix_append [part] parts, .nil _,
    Or.inr ⟨e, rfl, by rwa [List.length_nil, ← List.head?_eq_getElem?], rfl⟩⟩

theorem step {first : List Row} (hfirst : Script.results script.head? = .ok (first.map .ok))
    (part : List Text) (h : Advances script.tail parts asked rows result) :
    Advances script (part :: parts) (part :: asked) (first :: rows)
      (result.map (first.filterMap Row.document? :: ·)) where
  inOrder := (List.prefix_cons_inj part).mpr h.inOrder
  told := h.told.cons hfirst
  ended := by
    rcases h.ended with ⟨rfl, hlength, rfl⟩ | ⟨e, hlength, hbreaks, rfl⟩
    · exact Or.inl ⟨rfl, congrArg (· + 1) hlength, rfl⟩
    · refine Or.inr ⟨e, congrArg (· + 1) hlength, ?_, rfl⟩
      rwa [List.getElem?_tail] at hbreaks

end Advances

namespace Client

variable {c : Client Script}

theorem run_documentsAmong_script (hstore : c.store = Script.store) (part : List Text)
    (session : Session Script) : (c.documentsAmong part).run session =
      (Script.results session.store.head? >>= Results.vertexDocuments,
        ⟨session.store.tail, session.sent ++ [.query c.graphName (.modelsAmong part)]⟩) :=
  run_vertices_script hstore _ session

theorem run_mapM_documentsAmong (hstore : c.store = Script.store) (parts : List (List Text))
    (session : Session Script) : ∃ asked rows result,
      (parts.mapM c.documentsAmong).run session =
        (result, ⟨session.store.drop asked.length, session.sent ++
          asked.map fun part => .query c.graphName (.modelsAmong part)⟩) ∧
      Advances session.store parts asked rows result := by
  induction parts generalizing session with
  | nil => exact ⟨[], [], .ok [], by rw [List.map_nil, List.append_nil]; rfl, .nil _⟩
  | cons part parts ih =>
    have hpart := run_documentsAmong_script hstore part session
    rw [List.mapM_cons, run_bind, hpart]
    rcases Script.rows_or_breaksOff session.store.head? with ⟨first, hfirst⟩ | ⟨e, hbreaks⟩
    · obtain ⟨asked, rows, result, hrun, hadvances⟩ := ih
        ⟨session.store.tail, session.sent ++ [.query c.graphName (.modelsAmong part)]⟩
      have hread : (Script.results session.store.head? >>= Results.vertexDocuments) =
          .ok (first.filterMap Row.document?) := by
        rw [hfirst]
        exact Results.vertexDocuments_map_ok first
      refine ⟨part :: asked, first :: rows, _, ?_, hadvances.step hfirst part⟩
      rw [hread]
      dsimp only
      rw [run_bind, hrun, List.map_cons, List.length_cons, ← List.drop_one, List.drop_drop,
        Nat.add_comm 1, List.append_assoc, List.singleton_append]
      cases result <;> rfl
    · rw [Script.vertexDocuments_of_breaksOff hbreaks]
      exact ⟨[part], [], .error e, by rw [← List.drop_one]; rfl, .stop hbreaks part parts⟩

end Client

/-- How a request for the models of some ids went: what was sent, what it ended with, the parts
that the ids were cut into, and the rows of the replies that came in whole. -/
structure Batched (c : Client Script) (ids : List Text) (script : Script) (sent : List Request)
    (result : Except ModelError (List Json)) (parts : List (List Text)) (rows : List (List Row)) :
    Prop where
  range : 1 ≤ c.settings.batchSize ∧ c.settings.batchSize ≤ 1000
  portioned : Portioned c.settings.batchSize ids parts
  asked : List.Forall₂ (Request.AsksFor c.graphName) (parts.take sent.length) sent
  empty : ids = [] → sent = []
  told : script.Tells rows
  ended : (sent.length = parts.length ∧ rows.length = parts.length ∧
      result = .ok (rows.flatten.filterMap Row.document?)) ∨
    ∃ e, sent.length = rows.length + 1 ∧ Script.BreaksOff script[rows.length]? e ∧
      result = .error (.store e)

/-- Whatever client asks for the models of whatever ids, and whatever the store replies, the lookups
have the ids in order, each in one lookup, and no lookup is larger than the client allows or smaller
than it has to be. Without an error there is one lookup for each part, and the result has the
documents of the vertices that the rows start with, in order. The first error, behind however many
rows, is the result, and no lookup comes after it. -/
theorem Client.batches_lose_nothing {c : Client Script} (hc : c.MadeOf Script.store)
    (ids : List Text) (script : Script) (before : List Request) :
    ∃ sent result parts rows, (c.resolver ids).run ⟨script, before⟩ =
        (result, ⟨script.drop sent.length, before ++ sent⟩) ∧
      Batched c ids script sent result parts rows := by
  have hrange := Settings.batchSize_range_of_valid c.valid
  have hportioned := portioned_inParts hrange.1 ids
  obtain ⟨asked, rows, answers, hrun, hadvances⟩ := run_mapM_documentsAmong hc.store_eq
    (inParts c.settings.batchSize ids) ⟨script, before⟩
  refine ⟨asked.map fun part => .query c.graphName (.modelsAmong part),
    (answers.mapError ModelError.store).map List.flatten, _, rows, ?_, hrange, hportioned, ?_, ?_,
    hadvances.told, ?_⟩
  · have hadapt : (((inParts c.settings.batchSize ids).mapM c.documentsAmong).adapt
        ModelError.store).run ⟨script, before⟩ = _ := run_adapt _ _ _
    unfold resolver
    rw [run_bind, hadapt, hrun, List.length_map]
    cases answers <;> rfl
  · rw [List.length_map, ← List.prefix_iff_eq_take.mp hadvances.inOrder,
      List.forall₂_map_right_iff, List.forall₂_same]
    exact fun part _ => Request.asksFor_modelsAmong c.graphName part
  · rintro rfl
    have hnone := hadvances.inOrder
    rw [hportioned.eq_nil, List.prefix_nil] at hnone
    rw [hnone, List.map_nil]
  · rw [List.length_map]
    rcases hadvances.ended with ⟨hall, hlength, rfl⟩ | ⟨e, hlength, hbreaks, rfl⟩
    · refine Or.inl ⟨congrArg List.length hall, hlength.trans (congrArg List.length hall), ?_⟩
      exact congrArg Except.ok (List.filterMap_flatten).symm
    · exact Or.inr ⟨e, hlength, hbreaks, rfl⟩

def Client.pairwise : Client Script := ⟨Script.store, ⟨"twins", 2⟩, by decide, readInterfaces⟩

def brokenReplies : Script :=
  [.rows [[("m", "\x7b\"id\":1,\"label\":\"Model\"\x7d::vertex")], [("m", "7")]] none,
    .rows [[("m", "\x7b\"id\":2,\"label\":\"Model\"\x7d::vertex")]] (some (.connection "lost")),
    .rows [] none]

/-- Of five ids the last is not asked for. -/
theorem Client.broken_batches_lose_nothing : pairwise.MadeOf Script.store ∧
    ∃ result parts rows, Batched pairwise ["a", "it's", "c", "$$", "e"] brokenReplies
      [.query "twins" (.modelsAmong ["a", "it's"]), .query "twins" (.modelsAmong ["c", "$$"])]
      result parts rows ∧ result = .error (.store (.connection "lost")) := by
  have hc : pairwise.MadeOf Script.store := @MadeOf.new _ _ ⟨"twins", 2⟩ _ (dif_pos _)
  obtain ⟨sent, result, parts, rows, hrun, hbatched⟩ :=
    batches_lose_nothing hc ["a", "it's", "c", "$$", "e"] brokenReplies []
  have hresult : ((pairwise.resolver ["a", "it's", "c", "$$", "e"]).run ⟨brokenReplies, []⟩).1 =
      .error (.store (.connection "lost")) := by
    decide +kernel
  have hsent : ((pairwise.resolver ["a", "it's", "c", "$$", "e"]).run ⟨brokenReplies, []⟩).2.sent =
      [.query "twins" (.modelsAmong ["a", "it's"]), .query "twins" (.modelsAmong ["c", "$$"])] := by
    decide +kernel
  rw [hrun] at hresult hsent
  obtain rfl : sent = _ := hsent
  exact ⟨hc, result, parts, rows, hbatched, hresult⟩

end TwinGraph
