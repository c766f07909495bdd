import TwinGraph.CommandLine
import TwinGraph.Proofs.Query.Unbroken

/-! What is printed for queries: a line for each query that is accepted, in their order, and nothing
for the others. No line breaks inside, so a reader that counts lines counts accepted queries. -/
namespace TwinGraph.CommandLine

open Query

/-- A line ends at a line feed, and for some readers at other blanks too, but never at a space. -/
structure EndsLine (cut : Char → Bool) : Prop where
  lineFeed : cut '\n' = true
  blank : ∀ c, cut c = true → isBlank c = true ∧ c ≠ ' '

def accepts (graph query : Text) : Bool := (toCypher graph query).isOk

def answered (graph : Text) (queries : List Text) : Outcome :=
  .answers (queries.map fun query => (query, toCypher graph query))

/-- The output is the translations of the accepted queries, one a line and in their order, with
nothing behind the last line; and the code tells whether all of them are accepted. -/
structure Printed (graph : Text) (queries : List Text) (o : Outcome) : Prop where
  lines : ∃ lines, List.Forall₂ (fun query line => toCypher graph query = .ok line)
      (queries.filter (accepts graph)) lines ∧
    ∀ cut, EndsLine cut → o.output.pieces cut = lines ++ [[]]
  code : o.code = 0 ↔ ∀ query ∈ queries, ∃ line, toCypher graph query = .ok line

theorem accepts_iff {graph query : Text} :
    accepts graph query = true ↔ ∃ line, toCypher graph query = .ok line := by
  rw [accepts]
  cases toCypher graph query with
  | ok line => exact iff_of_true rfl ⟨line, rfl⟩
  | error e => exact iff_of_false Bool.false_ne_true (fun ⟨line, h⟩ => nomatch h)

theorem EndsLine.not_cut {cut : Char → Bool} (hcut : EndsLine cut) {s : Text} (hs : Unbroken s) :
    ∀ c ∈ s, cut c = false := by
  intro c hc
  refine Bool.eq_false_iff.mpr fun h => ?_
  obtain ⟨hblank, hspace⟩ := hcut.blank c h
  exact hspace (hs c hc hblank)

theorem pieces_lines {cut : Char → Bool} (hcut : EndsLine cut) {lines : List Text}
    (h : ∀ s ∈ lines, Unbroken s) :
    Text.pieces cut (lines.flatMap Outcome.line) = lines ++ [[]] := by
  induction lines with
  | nil => rfl
  | cons s lines ih =>
    rw [List.forall_mem_cons] at h
    rw [List.flatMap_cons, Outcome.line, List.append_assoc, List.singleton_append,
      pieces_append hcut.lineFeed, pieces_plain (hcut.not_cut h.1), ih h.2]
    rfl

theorem output_of_accepted {graph query line : Text} (h : toCypher graph query = .ok line)
    (queries : List Text) : (answered graph (query :: queries)).output =
      Outcome.line line ++ (answered graph queries).output := by
  rw [answered, List.map_cons, h]
  rfl

theorem output_of_refused {graph query : Text} {e : QueryError} (h : toCypher graph query = .error e)
    (queries : List Text) :
    (answered graph (query :: queries)).output = (answered graph queries).output := by
  rw [answered, List.map_cons, h]
  rfl

theorem exists_lines (graph : Text) (queries : List Text) :
    ∃ lines, List.Forall₂ (fun query line => toCypher graph query = .ok line)
        (queries.filter (accepts graph)) lines ∧
      (answered graph queries).output = lines.flatMap Outcome.line := by
  induction queries with
  | nil => exact ⟨[], .nil, rfl⟩
  | cons query queries ih =>
    obtain ⟨lines, hlines, houtput⟩ := ih
    cases hquery : toCypher graph query with
    | ok line =>
      rw [List.filter_cons_of_pos (accepts_iff.mpr ⟨line, hquery⟩), output_of_accepted hquery, houtput]
      exact ⟨line :: lines, .cons hquery hlines, rfl⟩
    | error e =>
      have hrefused : ¬ accepts graph query = true := by
        rw [accepts_iff, hquery]
        rintro ⟨line, hline⟩
        cases hline
      rw [List.filter_cons_of_neg hrefused, output_of_refused hquery, houtput]
      exact ⟨lines, hlines, rfl⟩

theorem code_answered (graph : Text) (queries : List Text) : (answered graph queries).code = 0 ↔
    ∀ query ∈ queries, ∃ line, toCypher graph query = .ok line := by
  have hcode : (answered graph queries).code = 0 ↔ queries.all (accepts graph) = true := by
    rw [answered, Outcome.code, List.all_map]
    split
    · next h => exact iff_of_true rfl h
    · next h => exact iff_of_false (by decide) h
  rw [hcode, List.all_eq_true]
  exact forall₂_congr fun query _ => accepts_iff

theorem unbroken_lines {graph : Text} (hgraph : isIdentifier graph = true) {queries lines : List Text}
    (h : List.Forall₂ (fun query line => toCypher graph query = .ok line) queries lines) :
    ∀ line ∈ lines, Unbroken line := by
  induction h with
  | nil => exact fun line hline => absurd hline List.not_mem_nil
  | cons hline _ ih => exact List.forall_mem_cons.mpr ⟨unbroken_toCypher hgraph hline, ih⟩

theorem printed_answered {graph : Text} (hgraph : isIdentifier graph = true) (queries : List Text) :
    Printed graph queries (answered graph queries) := by
  obtain ⟨lines, hlines, houtput⟩ := exists_lines graph queries
  refine ⟨⟨lines, hlines, fun cut hcut => ?_⟩, code_answered graph queries⟩
  rw [houtput, pieces_lines hcut (unbroken_lines hgraph hlines)]

theorem run_answers {env : Settings.Environment} {file : Text → Option Text} {arguments : List Text}
    {a : Arguments} {settings : Settings} (hread : read arguments = .ok (.answer a))
    (hload : loadSettings env file a = .ok settings)
    (hvalid : (settings.override ⟨a.graphName, none⟩).Valid) :
    run env file arguments = answered (settings.override ⟨a.graphName, none⟩).graphName a.queries := by
  have hcheck : (settings.override ⟨a.graphName, none⟩).check = .ok () := if_pos hvalid
  have hanswer : answer env file a = .ok (a.queries.map fun query =>
      (query, toCypher (settings.override ⟨a.graphName, none⟩).graphName query)) := by
    rw [answer, hload, Outcome.bind_eq_ok]
    exact ⟨settings, rfl, Outcome.bind_eq_ok.mpr ⟨(), hcheck, rfl⟩⟩
  rw [run, hread]
  dsimp only
  rw [hanswer]
  rfl

theorem read_queries {queries : List Text} (hne : queries ≠ []) :
    read ("--".toList :: queries) = .ok (.answer ⟨none, none, queries⟩) := by
  have hgiven : ¬ queries.isEmpty = true := by rwa [List.isEmpty_iff]
  rw [read, readFrom.eq_def]
  dsimp only
  rw [if_pos rfl, finish, List.nil_append, if_neg hgiven]

/-- One line for each accepted query. A translation for a valid name of a graph has no blank but the
space in it. So for all queries the output is, line by line, the translations of those that are
accepted, whichever others stand between them, and the code is zero if there are no others; and with
settings that are right a run comes to just that for the queries that it is given. -/
theorem one_line_for_each_accepted :
    (∀ graph query line, isIdentifier graph = true → toCypher graph query = .ok line →
      ∀ c ∈ line, isBlank c = true → c = ' ') ∧
    (∀ graph queries, isIdentifier graph = true →
      Printed graph queries (answered graph queries)) ∧
    (∀ env file arguments a settings, read arguments = .ok (.answer a) →
      loadSettings env file a = .ok settings → (settings.override ⟨a.graphName, none⟩).Valid →
      run env file arguments = answered (a.graphName.getD settings.graphName) a.queries ∧
      Printed (a.graphName.getD settings.graphName) a.queries (run env file arguments)) ∧
    ∀ queries, queries ≠ [] → read ("--".toList :: queries) = .ok (.answer ⟨none, none, queries⟩) := by
  refine ⟨fun graph query line hgraph hline => unbroken_toCypher hgraph hline,
    fun graph queries hgraph => printed_answered hgraph queries, ?_, fun queries => read_queries⟩
  intro env file arguments a settings hread hload hvalid
  have hrun := run_answers hread hload hvalid
  refine ⟨hrun, ?_⟩
  rw [hrun]
  exact printed_answered (Settings.isIdentifier_of_valid hvalid) a.queries

def brokenQueries : List Text :=
  ["SELECT T FROM\n  DIGITALTWINS\u2028T WHERE T.name = 'a\r\nb'", "SELECT T\nFROM TWINS",
    "select\u0085count()\tFROM RELATIONSHIPS R"]

def brokenArguments : List Text := "--graph-name" :: "g" :: brokenQueries

/-- Line breaks in a query, also in a literal, and a query that is refused. -/
theorem broken_queries_print_two_lines :
    read brokenArguments = .ok (.answer ⟨some "g", none, brokenQueries⟩) ∧
    loadSettings ⟨none, none⟩ (fun _ => none) ⟨some "g", none, brokenQueries⟩ = .ok Settings.default ∧
    (Settings.default.override ⟨some "g", none⟩).Valid ∧
    Printed "g" brokenQueries (run ⟨none, none⟩ (fun _ => none) brokenArguments) ∧
    (run ⟨none, none⟩ (fun _ => none) brokenArguments).output =
      "MATCH (T:Twin) WHERE T.name = 'a b' RETURN T\nMATCH (:Twin)-[R]->(:Twin) RETURN COUNT(*)\n" ∧
    (run ⟨none, none⟩ (fun _ => none) brokenArguments).code = 2 := by
  have hread : read brokenArguments = .ok (.answer ⟨some "g", none, brokenQueries⟩) := by
    decide +kernel
  have hload : loadSettings ⟨none, none⟩ (fun _ => none) ⟨some "g", none, brokenQueries⟩ =
      .ok Settings.default := by
    decide +kernel
  have hvalid : (Settings.default.override ⟨some "g", none⟩).Valid := by decide
  exact ⟨hread, hload, hvalid,
    (one_line_for_each_accepted.2.2.1 _ _ _ _ _ hread hload hvalid).2,
    by decide +kernel, by decide +kernel⟩

end TwinGraph.CommandLine
