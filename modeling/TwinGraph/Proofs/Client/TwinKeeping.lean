import TwinGraph.Proofs.Agtype.Reading
import TwinGraph.Proofs.Client.Keeping
import TwinGraph.Proofs.Client.Sentences

/-! Stores that keep twins. They go by the tokens of a statement and by the JSON in its literals,
and they tell a vertex by its text. -/
namespace TwinGraph

open Outcome

variable {ε ε' γ σ α β : Type}

/-- In each state the store has at most one vertex for an id, as the index of the graph makes it. It
merges a twin that says its own id by giving the vertex of that id the fields as its properties, and
it answers with the text of the vertex. Lookups do not change any vertex. -/
structure Store.KeepsTwins (store : Store σ) (graph : Text) (depth : Nat) (print : Vertex → Text)
    (vertexOf : σ → Text → Option Vertex) : Prop where
  prints : ∀ v, (Cell.vertex v).Printed (print v)
  merges : ∀ statement content id fields s,
    Cypher.lex statement = some (Cypher.mergeTokens content id) →
    Json.read depth content = some (.object fields) →
    Fields.find? Twin.idKey fields = some (.string id) →
    ∃ v s', (store.query graph statement).run s = (.ok [Row.ofTexts [("t", print v)]], s') ∧
      v.properties = fields ∧ Signed v.id ∧
      vertexOf s' = Function.update (vertexOf s) id (some v)
  tells : ∀ statement id s, Cypher.lex statement = some (Cypher.twinTokens id) →
    ((store.query graph statement).run s).1 =
      .ok ((vertexOf s id).toList.map fun v => Row.ofTexts [("t", print v)])
  looksUp : ∀ statement tokens s, Cypher.lex statement = some tokens → Cypher.ModelLookup tokens →
    vertexOf ((store.query graph statement).run s).2 = vertexOf s

def Leaves (view : σ → γ) (action : ExceptT ε (StateM (Session σ)) α) : Prop :=
  ∀ session, view (action.run session).2.store = view session.store

namespace Leaves

variable {view : σ → γ}

theorem lift (x : Except ε α) : Leaves view (liftM x : ExceptT ε (StateM (Session σ)) α) :=
  fun _ => rfl

theorem bind {x : ExceptT ε (StateM (Session σ)) α} {f : α → ExceptT ε (StateM (Session σ)) β}
    (hx : Leaves view x) (hf : ∀ a, Leaves view (f a)) : Leaves view (x >>= f) := by
  intro session
  have h := hx session
  rw [run_bind]
  rcases hrun : x.run session with ⟨e | a, s⟩ <;> rw [hrun] at h
  · exact h
  · exact (hf a s).trans h

theorem adapt {x : ExceptT ε (StateM (Session σ)) α} (f : ε → ε') (hx : Leaves view x) :
    Leaves view (x.adapt f) :=
  fun session => hx session

theorem mapM {f : α → ExceptT ε (StateM (Session σ)) β} {as : List α}
    (h : ∀ a ∈ as, Leaves view (f a)) : Leaves view (as.mapM f) := by
  induction as with
  | nil => exact lift (.ok [])
  | cons a as ih =>
    rw [List.forall_mem_cons] at h
    rw [List.mapM_cons]
    exact bind h.1 fun b => bind (ih h.2) fun bs => lift (.ok (b :: bs))

end Leaves

theorem Json.nesting_ofInt (n : Int) : (ofInt n).nesting = 0 := by
  unfold ofInt
  split <;> rfl

theorem Cell.ofText_vertex {v : Vertex} {s : Text} (hs : (vertex v).Printed s) (hid : Signed v.id)
    (hw : (Json.object v.properties).WellFormed)
    (hdepth : (Json.object v.properties).nesting + 2 ≤ maxDepth) : ofText s = .ok (vertex v) := by
  have hcanonical : (vertex v).Canonical := .vertex hid hw
  have hnesting : (vertex v).marked.nesting ≤ maxDepth := by
    refine le_trans ?_ hdepth
    simp only [marked, wrapped, Vertex.body, Json.nesting, Json.nestingFields, Json.nesting_ofInt]
    omega
  obtain ⟨t, ht, hyields⟩ := printed_unwraps _ s hs
  unfold ofText
  rw [Agtype.plainText_of_yields hyields,
    Json.read_written (wellFormed_marked hcanonical) ht hnesting]
  dsimp only
  rw [ofJson_marked hcanonical]

namespace Store.KeepsTwins

variable {c : Client σ} {depth : Nat} {print : Vertex → Text} {vertexOf : σ → Text → Option Vertex}

theorem leaves_ask (h : c.store.KeepsTwins c.graphName depth print vertexOf) {statement : Statement}
    (hlookup : (Request.query c.graphName statement).LooksUp c.graphName) :
    Leaves vertexOf (c.ask statement) := by
  intro session
  obtain ⟨_, tokens, heq, hlex, htokens⟩ := hlookup.readsModels
  cases heq
  exact h.looksUp _ tokens _ hlex htokens

theorem leaves_resolver (h : c.store.KeepsTwins c.graphName depth print vertexOf)
    (ids : List Text) : Leaves vertexOf (c.resolver ids) := by
  refine Leaves.bind (Leaves.adapt _ (Leaves.mapM fun part _ => ?_)) fun _ => Leaves.lift (.ok _)
  exact Leaves.bind (h.leaves_ask (Or.inr ⟨part, rfl⟩)) fun results => Leaves.lift _

theorem leaves_readModels (h : c.store.KeepsTwins c.graphName depth print vertexOf)
    (hreader : c.reader = readInterfaces) (documents : List Json) :
    Leaves vertexOf (c.readModels documents) := by
  intro session
  rw [c.run_readModels hreader]
  exact readInterfaces_of_steps (Q := Leaves vertexOf) Leaves.lift Leaves.bind
    h.leaves_resolver _ documents session

theorem leaves_modelDocument (h : c.store.KeepsTwins c.graphName depth print vertexOf) (id : Text) :
    Leaves vertexOf (c.modelDocument id) := by
  refine Leaves.bind (Leaves.bind (Leaves.bind (Leaves.lift _) fun _ => Leaves.adapt _
    (h.leaves_ask (Or.inl ⟨id, rfl⟩))) fun results => Leaves.lift _) fun row => ?_
  split
  · exact Leaves.lift (.ok _)
  · exact Leaves.lift (.error _)

/-- Whatever comes of reading a model, no twin is changed by it. -/
theorem leaves_interface (h : c.store.KeepsTwins c.graphName depth print vertexOf)
    (hreader : c.reader = readInterfaces) (id : Text) : Leaves vertexOf (c.interface id) := by
  refine Leaves.bind (h.leaves_modelDocument id) fun document =>
    Leaves.bind (h.leaves_readModels hreader [document]) fun interfaces => ?_
  split
  · exact Leaves.lift (.ok _)
  · exact Leaves.lift (.error _)

end Store.KeepsTwins
end TwinGraph
