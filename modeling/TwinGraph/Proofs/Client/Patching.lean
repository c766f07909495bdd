import TwinGraph.Proofs.Client.Keeping
import TwinGraph.Proofs.Client.Operations
import TwinGraph.Proofs.Patch.Pointing

/-! What becomes of a patch. Either each of its operations is a clause of the one statement that is
sent, or nothing is sent, and which error it is follows from the operations alone. -/
namespace TwinGraph

open Outcome Cypher

variable {σ : Type}

/-! ### Single operations -/

namespace PatchOperation

/-- The path is cut into parts, none of them empty, and these are read as the keys. -/
def Addresses (operation : PatchOperation) (keys : List Text) : Prop :=
  ∃ parts, Pointer.Parts operation.path parts ∧ [] ∉ parts ∧ keys = parts.map Pointer.readSegment

def OnId (operation : PatchOperation) : Prop :=
  ∃ keys, operation.Addresses keys ∧ keys.head? = some PatchClause.idKey

def Supported : PatchOperation → Prop
  | add _ _ | replace _ _ | remove _ => True
  | move _ _ | copy _ _ | test _ _ => False

def Applicable (operation : PatchOperation) : Prop :=
  operation.Supported ∧
    ∃ keys, operation.Addresses keys ∧ keys.head? ≠ some PatchClause.idKey

/-- What the clause for an operation does. -/
inductive AppliedBy : PatchOperation → PatchClause → Prop where
  | add {path value keys} (h : (add path value).Addresses keys) :
      AppliedBy (add path value) (.assign keys value)
  | replace {path value keys} (h : (replace path value).Addresses keys) :
      AppliedBy (replace path value) (.assign keys value)
  | remove {path keys} (h : (remove path).Addresses keys) :
      AppliedBy (remove path) (.erase keys)

/-- The errors that an operation causes by itself. Its kind matters only if its path is one. -/
inductive Faulty (operation : PatchOperation) : ClientError → Prop where
  | relative (h : operation.path.head? ≠ some '/') :
      operation.Faulty (.badArgument (.pointer (.relative operation.path)))
  | emptySegment {parts} (h : Pointer.Parts operation.path parts) (hempty : [] ∈ parts) :
      operation.Faulty (.badArgument (.pointer (.emptySegment operation.path)))
  | unsupported {keys} (h : operation.Addresses keys)
      (hkey : keys.head? ≠ some PatchClause.idKey) (hkind : ¬operation.Supported) :
      operation.Faulty (.unsupportedOperation operation.name)

variable {operation : PatchOperation} {keys : List Text}

theorem addresses_iff : operation.Addresses keys ↔ Pointer.segments operation.path = .ok keys :=
  Pointer.segments_eq_ok.symm

theorem Addresses.unique {keys' : List Text} (h : operation.Addresses keys)
    (h' : operation.Addresses keys') : keys = keys' := by
  rw [addresses_iff] at h h'
  rw [h] at h'
  exact Except.ok.inj h'

end PatchOperation

def PatchFault.told : PatchFault → ClientError
  | pointer fault => .badArgument (.pointer fault)
  | unsupported name => .unsupportedOperation name
  | changesId attempts =>
    .validationFailed (List.replicate attempts "Cannot update the $dtId property")

namespace PatchClause

open PatchOperation

variable {operation : PatchOperation}

theorem ofOperation?_of_onId (h : operation.OnId) : ofOperation? operation = .ok none := by
  obtain ⟨keys, hkeys, hhead⟩ := h
  unfold ofOperation?
  rw [addresses_iff.mp hkeys]
  exact if_pos hhead

theorem ofOperation?_of_applicable (h : operation.Applicable) :
    ∃ clause, operation.AppliedBy clause ∧ ofOperation? operation = .ok (some clause) := by
  obtain ⟨hkind, keys, hkeys, hhead⟩ := h
  have hsegments := addresses_iff.mp hkeys
  unfold ofOperation?
  rw [hsegments]
  dsimp only
  rw [if_neg hhead]
  cases operation with
  | add path value => exact ⟨_, .add hkeys, rfl⟩
  | replace path value => exact ⟨_, .replace hkeys, rfl⟩
  | remove path => exact ⟨_, .remove hkeys, rfl⟩
  | _ => cases hkind

theorem ofOperation?_of_faulty {e : ClientError} (h : operation.Faulty e) :
    ∃ fault, ofOperation? operation = .error fault ∧ fault.told = e := by
  cases h with
  | relative h =>
    refine ⟨.pointer (.relative operation.path), ?_, rfl⟩
    unfold ofOperation?
    rw [Pointer.segments_relative h]
  | emptySegment h hempty =>
    refine ⟨.pointer (.emptySegment operation.path), ?_, rfl⟩
    unfold ofOperation?
    rw [Pointer.segments_eq_error.mpr (Or.inr ⟨⟨_, h, hempty⟩, rfl⟩)]
  | unsupported h hhead hkind =>
    refine ⟨.unsupported operation.name, ?_, rfl⟩
    unfold ofOperation?
    rw [addresses_iff.mp h]
    dsimp only
    rw [if_neg hhead]
    cases operation with
    | add | replace | remove => exact absurd trivial hkind
    | _ => rfl

theorem operation_cases (operation : PatchOperation) :
    operation.Applicable ∨ operation.OnId ∨ ∃ e, operation.Faulty e := by
  cases hsegments : Pointer.segments operation.path with
  | error fault =>
    refine Or.inr (Or.inr ?_)
    rcases Pointer.segments_eq_error.mp hsegments with ⟨hslash, -⟩ | ⟨⟨parts, hparts, hempty⟩, -⟩
    · exact ⟨_, .relative hslash⟩
    · exact ⟨_, .emptySegment hparts hempty⟩
  | ok keys =>
    have hkeys := addresses_iff.mpr hsegments
    by_cases hhead : keys.head? = some idKey
    · exact Or.inr (Or.inl ⟨keys, hkeys, hhead⟩)
    · by_cases hkind : operation.Supported
      · exact Or.inl ⟨hkind, keys, hkeys, hhead⟩
      · exact Or.inr (Or.inr ⟨_, .unsupported hkeys hhead hkind⟩)

theorem ofOperation?_eq_none : ofOperation? operation = .ok none ↔ operation.OnId := by
  constructor
  · intro h
    rcases operation_cases operation with happlicable | hid | ⟨e, hfaulty⟩
    · obtain ⟨clause, -, hclause⟩ := ofOperation?_of_applicable happlicable
      rw [hclause] at h
      cases h
    · exact hid
    · obtain ⟨fault, hfault, -⟩ := ofOperation?_of_faulty hfaulty
      rw [hfault] at h
      cases h
  · exact ofOperation?_of_onId

instance : DecidablePred PatchOperation.OnId := fun _ => decidable_of_iff _ ofOperation?_eq_none

/-! ### Lists of operations -/

theorem ofPatch_of_applicable {patch : List PatchOperation}
    (h : ∀ operation ∈ patch, operation.Applicable) :
    ∃ clauses, List.Forall₂ AppliedBy patch clauses ∧ ofPatch patch = .ok clauses := by
  have hsteps : ∃ clauses, List.Forall₂ AppliedBy patch clauses ∧
      patch.mapM ofOperation? = .ok (clauses.map some) := by
    induction patch with
    | nil => exact ⟨[], .nil, rfl⟩
    | cons operation patch ih =>
      rw [List.forall_mem_cons] at h
      obtain ⟨clause, hclause, hstep⟩ := ofOperation?_of_applicable h.1
      obtain ⟨clauses, hclauses, hsteps⟩ := ih h.2
      refine ⟨clause :: clauses, .cons hclause hclauses, ?_⟩
      rw [mapM_eq_ok] at hsteps ⊢
      exact .cons hstep hsteps
  obtain ⟨clauses, hclauses, hsteps⟩ := hsteps
  refine ⟨clauses, hclauses, bind_eq_ok.mpr ⟨_, hsteps, ?_⟩⟩
  have hnone : (clauses.map some).count none = 0 := by
    rw [List.count_eq_zero]
    simp
  dsimp only
  rw [if_pos hnone, List.filterMap_map]
  exact congrArg Except.ok List.filterMap_some

theorem steps_of_not_faulty {patch : List PatchOperation}
    (h : ∀ operation ∈ patch, ∀ e, ¬operation.Faulty e) :
    ∃ steps, patch.mapM ofOperation? = .ok steps ∧
      steps.count none = patch.countP (fun operation => decide operation.OnId) := by
  induction patch with
  | nil => exact ⟨[], rfl, rfl⟩
  | cons operation patch ih =>
    rw [List.forall_mem_cons] at h
    obtain ⟨steps, hsteps, hcount⟩ := ih h.2
    rw [mapM_eq_ok] at hsteps
    rcases operation_cases operation with happlicable | hid | ⟨e, hfaulty⟩
    · obtain ⟨clause, -, hstep⟩ := ofOperation?_of_applicable happlicable
      refine ⟨some clause :: steps, mapM_eq_ok.mpr (.cons hstep hsteps), ?_⟩
      have hid : ¬operation.OnId := by
        intro hid
        rw [ofOperation?_of_onId hid] at hstep
        cases hstep
      rw [List.count_cons_of_ne (by simp), List.countP_cons_of_neg (by simpa using hid), hcount]
    · refine ⟨none :: steps, mapM_eq_ok.mpr (.cons (ofOperation?_of_onId hid) hsteps), ?_⟩
      rw [List.count_cons_self, List.countP_cons_of_pos (by simpa using hid), hcount]
    · exact absurd hfaulty (h.1 e)

theorem exists_first_faulty {patch : List PatchOperation}
    (h : ∃ operation ∈ patch, ∃ e, operation.Faulty e) :
    ∃ done operation rest e, patch = done ++ operation :: rest ∧
      (∀ earlier ∈ done, ∀ e, ¬earlier.Faulty e) ∧ operation.Faulty e := by
  induction patch with
  | nil =>
    obtain ⟨operation, hmem, -⟩ := h
    cases hmem
  | cons first patch ih =>
    by_cases hfirst : ∃ e, first.Faulty e
    · obtain ⟨e, he⟩ := hfirst
      exact ⟨[], first, patch, e, rfl, by simp, he⟩
    · obtain ⟨operation, hmem, hfaulty⟩ := h
      have hrest : operation ∈ patch := by
        rcases List.mem_cons.mp hmem with rfl | hmem
        · exact absurd hfaulty hfirst
        · exact hmem
      obtain ⟨done, other, rest, e, rfl, hdone, he⟩ := ih ⟨operation, hrest, hfaulty⟩
      refine ⟨first :: done, other, rest, e, rfl, ?_, he⟩
      exact List.forall_mem_cons.mpr ⟨not_exists.mp hfirst, hdone⟩

/-- The first operation at fault decides the error. -/
theorem ofPatch_of_faulty {done rest : List PatchOperation} {e : ClientError}
    (hdone : ∀ earlier ∈ done, ∀ e, ¬earlier.Faulty e) (h : operation.Faulty e) :
    ∃ fault, ofPatch (done ++ operation :: rest) = .error fault ∧ fault.told = e := by
  obtain ⟨fault, hfault, htold⟩ := ofOperation?_of_faulty h
  obtain ⟨steps, hsteps, -⟩ := steps_of_not_faulty hdone
  have hok : ∀ earlier ∈ done, ∃ step, ofOperation? earlier = .ok step := by
    intro earlier hearlier
    obtain ⟨step, -, hstep⟩ := ok_of_mapM hsteps earlier hearlier
    exact ⟨step, hstep⟩
  exact ⟨fault, bind_eq_error.mpr (Or.inl (mapM_eq_error hok hfault)), htold⟩

/-- If nothing else is wrong, the operations on the id are counted. -/
theorem ofPatch_of_onId {patch : List PatchOperation}
    (h : ∀ operation ∈ patch, ∀ e, ¬operation.Faulty e)
    (hid : ∃ operation ∈ patch, operation.OnId) :
    ofPatch patch = .error
      (.changesId (patch.countP fun operation => decide operation.OnId)) := by
  obtain ⟨steps, hsteps, hcount⟩ := steps_of_not_faulty h
  refine bind_eq_error.mpr (Or.inr ⟨steps, hsteps, ?_⟩)
  have hsome : steps.count none ≠ 0 := by
    obtain ⟨operation, hmem, hon⟩ := hid
    rw [hcount]
    apply Nat.ne_of_gt
    exact List.countP_pos_iff.mpr ⟨operation, hmem, decide_eq_true hon⟩
  dsimp only
  rw [if_neg hsome, hcount]
  rfl

/-! ### Tokens -/

def keys : PatchClause → List Text
  | assign keys _ | erase keys => keys

def tokens : PatchClause → List Cypher.Token
  | assign keys value =>
    .word "SET" :: .word "t" :: (pathTokens keys ++
      [.symbol '=', .literal value.render, .symbol ':', .symbol ':', .word "agtype"])
  | erase keys => .word "REMOVE" :: .word "t" :: pathTokens keys

theorem tokens_pieces (clause : PatchClause) :
    clause.pieces.flatMap Piece.tokens = clause.tokens := by
  have hset : (Piece.fixed " SET t").tokens = [.word "SET", .word "t"] := by decide
  have hremove : (Piece.fixed " REMOVE t").tokens = [.word "REMOVE", .word "t"] := by decide
  have hequals : (Piece.fixed " = ").tokens = [.symbol '='] := by decide
  have hcast : (Piece.fixed "::agtype").tokens =
      [.symbol ':', .symbol ':', .word "agtype"] := by decide
  cases clause with
  | assign keys value =>
    rw [pieces, List.cons_append, List.flatMap_cons, List.flatMap_append, tokens_properties, hset,
      List.flatMap_cons, List.flatMap_cons, List.flatMap_cons, hequals, hcast]
    rfl
  | erase keys =>
    rw [pieces, List.flatMap_cons, tokens_properties, hremove]
    rfl

end PatchClause

def selection (id : Text) : List Cypher.Token :=
  [.word "MATCH", .symbol '(', .word "t", .symbol ':', .word "Twin", .symbol ')', .word "WHERE",
    .word "t", .symbol '[', .literal "$dtId", .symbol ']', .symbol '=', .literal id]

def tagging (tag : Text) : List Cypher.Token :=
  [.word "SET", .word "t", .symbol '.', .property "$etag", .symbol '=', .literal tag,
    .word "RETURN", .word "t"]

theorem Statement.lex_patchTwin (id : Text) (clauses : List PatchClause) (tag : Text) :
    lex (patchTwin id clauses tag).text =
      some (selection id ++ clauses.flatMap PatchClause.tokens ++ tagging tag) := by
  have hopening : (lex "MATCH (t:Twin) WHERE t['$dtId'] = ".toList).getD [] =
      [.word "MATCH", .symbol '(', .word "t", .symbol ':', .word "Twin", .symbol ')',
        .word "WHERE", .word "t", .symbol '[', .literal "$dtId", .symbol ']', .symbol '='] := by
    decide
  have hset : (Piece.fixed " SET t.`$etag` = ").tokens =
      [.word "SET", .word "t", .symbol '.', .property "$etag", .symbol '='] := by decide
  have hreturn : (Piece.fixed " RETURN t").tokens = [.word "RETURN", .word "t"] := by decide
  have hclauses : (clauses.flatMap PatchClause.pieces).flatMap Piece.tokens =
      clauses.flatMap PatchClause.tokens := by
    rw [List.flatMap_assoc]
    exact congrArg (List.flatMap · clauses) (funext PatchClause.tokens_pieces)
  rw [lex_text _ rfl, tokens, opening, pieces, hopening, List.flatMap_append, List.flatMap_cons,
    hclauses, List.flatMap_cons, List.flatMap_cons, List.flatMap_cons, hset, hreturn]
  simp [selection, tagging, Piece.tokens]

/-- All that is set or removed is some property of the twin other than its id. -/
def SparesId (tokens : List Cypher.Token) : Prop :=
  ∀ before word after, tokens = before ++ .word word :: after →
    word = "SET".toList ∨ word = "REMOVE".toList →
      ∃ key rest, after = .word "t" :: .symbol '.' :: .property key :: rest ∧
        key ≠ PatchClause.idKey

namespace SparesId

theorem nil : SparesId [] := by
  intro before word after h
  cases before <;> cases h

theorem append {ts us : List Cypher.Token} (ht : SparesId ts) (hu : SparesId us) :
    SparesId (ts ++ us) := by
  intro before word after h hword
  rcases List.append_eq_append_iff.mp h with ⟨middle, rfl, hus⟩ | ⟨middle, hts, hus⟩
  · exact hu middle word after hus hword
  · cases middle with
    | nil => exact hu [] word after hus.symm hword
    | cons token middle =>
      rw [List.cons_append, List.cons.injEq] at hus
      obtain ⟨rfl, rfl⟩ := hus
      obtain ⟨key, rest, rfl, hkey⟩ := ht before word middle hts hword
      exact ⟨key, rest ++ us, rfl, hkey⟩

theorem of_other {ts : List Cypher.Token}
    (h : ∀ token ∈ ts, token ≠ .word "SET" ∧ token ≠ .word "REMOVE") : SparesId ts := by
  rintro before word after rfl hword
  have hmem := h (.word word) (List.mem_append_right _ List.mem_cons_self)
  rcases hword with rfl | rfl
  · exact absurd rfl hmem.1
  · exact absurd rfl hmem.2

theorem cons {token : Cypher.Token} {ts : List Cypher.Token} (ht : SparesId ts)
    (h : token ≠ .word "SET" ∧ token ≠ .word "REMOVE") : SparesId (token :: ts) :=
  append (of_other (List.forall_mem_singleton.mpr h)) ht

theorem change {key : Text} (hkey : key ≠ PatchClause.idKey) {ts : List Cypher.Token}
    (ht : SparesId ts) (word : Text) :
    SparesId (.word word :: .word "t" :: .symbol '.' :: .property key :: ts) := by
  intro before found after h hfound
  cases before with
  | nil =>
    rw [List.nil_append, List.cons.injEq] at h
    exact ⟨key, ts, h.2.symm, hkey⟩
  | cons token before =>
    rw [List.cons_append, List.cons.injEq] at h
    have hrest : SparesId (.word "t" :: .symbol '.' :: .property key :: ts) := by
      refine cons (cons (cons ht ?_) ?_) ?_ <;> simp
    exact hrest before found after h.2 hfound

end SparesId

theorem PatchClause.spares_tokens {clause : PatchClause} {key : Text} {keys : List Text}
    (hkeys : clause.keys = key :: keys) (hkey : key ≠ idKey) : SparesId clause.tokens := by
  have hpath : ∀ keys : List Text, SparesId (pathTokens keys) := by
    intro keys
    apply SparesId.of_other
    intro token htoken
    obtain ⟨k, -, hk⟩ := List.mem_flatMap.mp htoken
    rcases List.mem_cons.mp hk with rfl | hk
    · simp
    · rw [List.mem_singleton.mp hk]
      simp
  cases clause with
  | assign given value =>
    cases hkeys
    refine SparesId.change hkey (SparesId.append (hpath keys) (SparesId.of_other ?_)) "SET"
    simp
  | erase given =>
    cases hkeys
    exact SparesId.change hkey (hpath keys) "REMOVE"

/-! ### The call -/

namespace Client

variable (c : Client σ)

theorem patchClauses_eq (patch : List PatchOperation) :
    patchClauses patch = (PatchClause.ofPatch patch).mapError PatchFault.told := by
  unfold patchClauses PatchFault.told
  cases PatchClause.ofPatch patch with
  | ok clauses => rfl
  | error fault => cases fault <;> rfl

theorem run_patchTwin_of_error {patch : List PatchOperation} {fault : PatchFault}
    (h : PatchClause.ofPatch patch = .error fault) (id tag : Text) (session : Session σ) :
    (c.patchTwin id patch tag).run session = (.error fault.told, session) := by
  have hclauses : patchClauses patch = .error fault.told := by
    rw [patchClauses_eq, h]
    rfl
  unfold patchTwin
  rw [run_bind, run_lift, hclauses]

theorem run_patchTwin_of_faulty {done rest : List PatchOperation} {operation : PatchOperation}
    {e : ClientError} (hdone : ∀ earlier ∈ done, ∀ e, ¬earlier.Faulty e)
    (h : operation.Faulty e) (id tag : Text) (session : Session σ) :
    (c.patchTwin id (done ++ operation :: rest) tag).run session = (.error e, session) := by
  obtain ⟨fault, hpatch, rfl⟩ := PatchClause.ofPatch_of_faulty hdone h
  exact c.run_patchTwin_of_error hpatch id tag session

theorem run_patchTwin_of_onId {patch : List PatchOperation}
    (h : ∀ operation ∈ patch, ∀ e, ¬operation.Faulty e)
    (hid : ∃ operation ∈ patch, operation.OnId) (id tag : Text) (session : Session σ) :
    (c.patchTwin id patch tag).run session =
      (.error (.validationFailed (List.replicate
        (patch.countP fun operation => decide operation.OnId)
        "Cannot update the $dtId property")), session) :=
  c.run_patchTwin_of_error (PatchClause.ofPatch_of_onId h hid) id tag session

theorem run_patchTwin_of_not_applicable {patch : List PatchOperation}
    (h : ¬∀ operation ∈ patch, operation.Applicable) (id tag : Text) (session : Session σ) :
    ∃ e, (c.patchTwin id patch tag).run session = (.error e, session) := by
  by_cases hfaulty : ∃ operation ∈ patch, ∃ e, operation.Faulty e
  · obtain ⟨done, operation, rest, e, rfl, hdone, he⟩ := PatchClause.exists_first_faulty hfaulty
    exact ⟨e, c.run_patchTwin_of_faulty hdone he id tag session⟩
  · have hnone : ∀ operation ∈ patch, ∀ e, ¬operation.Faulty e := by
      intro operation hmem e he
      exact hfaulty ⟨operation, hmem, e, he⟩
    have hid : ∃ operation ∈ patch, operation.OnId := by
      by_contra hnot
      apply h
      intro operation hmem
      rcases PatchClause.operation_cases operation with happlicable | hon | ⟨e, he⟩
      · exact happlicable
      · exact absurd ⟨operation, hmem, hon⟩ hnot
      · exact absurd he (hnone operation hmem e)
    exact ⟨_, c.run_patchTwin_of_onId hnone hid id tag session⟩

theorem run_patchTwin_of_ok {patch : List PatchOperation} {clauses : List PatchClause}
    (h : PatchClause.ofPatch patch = .ok clauses) (id tag : Text) (session : Session σ) :
    (c.patchTwin id patch tag).run session =
      (do
        let row ← c.queryFirst (.patchTwin id clauses tag)
        if row.isNone then throw (.notFound (.twin id)) : Action σ Unit).run session := by
  have hclauses : patchClauses patch = .ok clauses := by
    rw [patchClauses_eq, h]
    rfl
  unfold patchTwin
  rw [run_bind, run_lift, hclauses]

theorem run_patchTwin_of_markFree {patch : List PatchOperation} {clauses : List PatchClause}
    (h : PatchClause.ofPatch patch = .ok clauses) {id tag : Text}
    (hmark : breaksOut (Statement.patchTwin id clauses tag).text = false) (session : Session σ) :
    ((c.patchTwin id patch tag).run session).2 =
      ⟨((c.store.query c.graphName (Statement.patchTwin id clauses tag).text).run
          session.store).2,
        session.sent ++ [.query c.graphName (.patchTwin id clauses tag)]⟩ := by
  rw [c.run_patchTwin_of_ok h, state_bind, c.run_queryFirst hmark]
  · rfl
  · intro row s
    cases row <;> rfl

theorem run_patchTwin_of_mark {patch : List PatchOperation} {clauses : List PatchClause}
    (h : PatchClause.ofPatch patch = .ok clauses) {id tag : Text}
    (hmark : breaksOut (Statement.patchTwin id clauses tag).text = true) (session : Session σ) :
    (c.patchTwin id patch tag).run session = (.error (.badArgument .breaksOut), session) := by
  have hcheck : checkStatement (.patchTwin id clauses tag) = .error (.badArgument .breaksOut) :=
    if_pos hmark
  rw [c.run_patchTwin_of_ok h]
  unfold queryFirst query
  rw [run_bind, run_bind, run_bind, run_lift, hcheck]

end Client

open PatchOperation in
/-- A patch is applied as a whole or not at all. -/
structure PatchesAsAWhole (c : Client σ) (id : Text) (patch : List PatchOperation) (tag : Text)
    (session : Session σ) : Prop where
  /-- With every operation applicable there is a clause for each, in order, and one statement of
  them, which is sent unless it holds the mark. -/
  applied : (∀ operation ∈ patch, operation.Applicable) →
    ∃ clauses, List.Forall₂ AppliedBy patch clauses ∧
      lex (Statement.patchTwin id clauses tag).text =
        some (selection id ++ clauses.flatMap PatchClause.tokens ++ tagging tag) ∧
      (¬['$', '$'] <:+: (Statement.patchTwin id clauses tag).text →
        ((c.patchTwin id patch tag).run session).2 =
          ⟨((c.store.query c.graphName (Statement.patchTwin id clauses tag).text).run
              session.store).2,
            session.sent ++ [.query c.graphName (.patchTwin id clauses tag)]⟩) ∧
      (['$', '$'] <:+: (Statement.patchTwin id clauses tag).text →
        (c.patchTwin id patch tag).run session = (.error (.badArgument .breaksOut), session))
  /-- Otherwise there is an error and nothing is sent. -/
  rejected : (¬∀ operation ∈ patch, operation.Applicable) →
    ∃ e, (c.patchTwin id patch tag).run session = (.error e, session)
  /-- The first operation at fault decides the error. -/
  faulty : ∀ done operation rest e, patch = done ++ operation :: rest →
    (∀ earlier ∈ done, ∀ e, ¬earlier.Faulty e) → operation.Faulty e →
      (c.patchTwin id patch tag).run session = (.error e, session)
  /-- With none at fault, each operation on the id is one violation. -/
  onId : (∀ operation ∈ patch, ∀ e, ¬operation.Faulty e) →
    (∃ operation ∈ patch, operation.OnId) →
      (c.patchTwin id patch tag).run session =
        (.error (.validationFailed (List.replicate
          (patch.countP fun operation => decide operation.OnId)
          "Cannot update the $dtId property")), session)
  /-- Whatever is sent spares the id. -/
  sparing : ∃ new, ((c.patchTwin id patch tag).run session).2.sent = session.sent ++ new ∧
    ∀ request ∈ new, ∃ statement tokens, request = .query c.graphName statement ∧
      lex statement.text = some tokens ∧ SparesId tokens

theorem PatchClause.spares_clauses {patch : List PatchOperation} {clauses : List PatchClause}
    (h : List.Forall₂ PatchOperation.AppliedBy patch clauses)
    (happlicable : ∀ operation ∈ patch, operation.Applicable) :
    SparesId (clauses.flatMap tokens) := by
  induction h with
  | nil => exact SparesId.nil
  | @cons operation clause patch clauses hclause _ ih =>
    rw [List.forall_mem_cons] at happlicable
    rw [List.flatMap_cons]
    apply SparesId.append _ (ih happlicable.2)
    obtain ⟨-, keys, hkeys, hhead⟩ := happlicable.1
    have hclausekeys : clause.keys = keys := by
      cases hclause with
      | add h | replace h | remove h => exact h.unique hkeys
    cases keys with
    | nil =>
      obtain ⟨parts, hparts, -, hnil⟩ := hkeys
      exact absurd (List.map_eq_nil_iff.mp hnil.symm) hparts.any
    | cons key keys =>
      apply spares_tokens hclausekeys
      rintro rfl
      exact hhead rfl

theorem SparesId.selection (id : Text) : SparesId (selection id) := by
  apply SparesId.of_other
  simp [TwinGraph.selection]

theorem SparesId.tagging (tag : Text) : SparesId (tagging tag) :=
  SparesId.change (by decide) (SparesId.of_other (by simp)) "SET"

theorem Statement.spares_patchTwin {patch : List PatchOperation} {clauses : List PatchClause}
    (h : List.Forall₂ PatchOperation.AppliedBy patch clauses)
    (happlicable : ∀ operation ∈ patch, operation.Applicable) (id tag : Text) :
    SparesId (TwinGraph.selection id ++ clauses.flatMap PatchClause.tokens ++
      TwinGraph.tagging tag) :=
  SparesId.append
    (SparesId.append (.selection id) (PatchClause.spares_clauses h happlicable)) (.tagging tag)

/-- Whatever a client is told to change about a twin, it makes one statement of it that says just
that, or sends nothing and tells what was wrong first. -/
theorem patch_is_all_or_nothing (c : Client σ) (id : Text) (patch : List PatchOperation) (tag : Text)
    (session : Session σ) : PatchesAsAWhole c id patch tag session where
  applied := by
    intro happlicable
    obtain ⟨clauses, hclauses, hpatch⟩ := PatchClause.ofPatch_of_applicable happlicable
    refine ⟨clauses, hclauses, Statement.lex_patchTwin id clauses tag, fun hmark => ?_,
      fun hmark => ?_⟩
    · rw [← Text.contains_eq_true, Bool.not_eq_true] at hmark
      exact c.run_patchTwin_of_markFree hpatch hmark session
    · exact c.run_patchTwin_of_mark hpatch (Text.contains_eq_true.mpr hmark) session
  rejected h := c.run_patchTwin_of_not_applicable h id tag session
  faulty := by
    rintro done operation rest e rfl hdone he
    exact c.run_patchTwin_of_faulty hdone he id tag session
  onId h hid := c.run_patchTwin_of_onId h hid id tag session
  sparing := by
    by_cases happlicable : ∀ operation ∈ patch, operation.Applicable
    · obtain ⟨clauses, hclauses, hpatch⟩ := PatchClause.ofPatch_of_applicable happlicable
      cases hmark : breaksOut (Statement.patchTwin id clauses tag).text with
      | true =>
        refine ⟨[], ?_, by simp⟩
        rw [c.run_patchTwin_of_mark hpatch hmark session, List.append_nil]
      | false =>
        refine ⟨[.query c.graphName (.patchTwin id clauses tag)], ?_, ?_⟩
        · rw [c.run_patchTwin_of_markFree hpatch hmark session]
        · intro request hrequest
          exact ⟨_, _, List.mem_singleton.mp hrequest, Statement.lex_patchTwin id clauses tag,
            Statement.spares_patchTwin hclauses happlicable id tag⟩
    · obtain ⟨e, he⟩ := c.run_patchTwin_of_not_applicable happlicable id tag session
      refine ⟨[], ?_, by simp⟩
      rw [he, List.append_nil]

end TwinGraph
