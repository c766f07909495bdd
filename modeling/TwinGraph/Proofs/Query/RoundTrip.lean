import TwinGraph.Proofs.Json.Numbers
import TwinGraph.Proofs.Outcome
import TwinGraph.Proofs.Query.Tight
import TwinGraph.Proofs.Query.Respacing

/-! A query is read back from its text. -/
namespace TwinGraph

open Query Scan

namespace Query

theorem scanAlias_append {name rest : Text} (hname : IsAlias name)
    (hrest : rest.head?.any isNameChar = false) : scanAlias (name ++ rest) = some (name, rest) := by
  unfold scanAlias
  rw [scanName_append hname.1 hrest]
  dsimp only
  rw [hname.2, if_neg Bool.false_ne_true]

def nextWords : List Text := ["JOIN", "WHERE"]

def EndsAlias (t : Text) : Prop :=
  t = [] ∨ ∃ word ∈ nextWords, ∃ rest, t = ' ' :: (word ++ ' ' :: rest)

theorem EndsAlias.head {t : Text} (ht : EndsAlias t) : t.head?.any isNameChar = false := by
  rcases ht with rfl | ⟨word, -, rest, rfl⟩ <;> rfl

theorem isIdentifier_of_mem {word : Text} (h : word ∈ clauseWords) : isIdentifier word = true := by
  have hall : ∀ word ∈ clauseWords, isIdentifier word = true := by decide
  exact hall word h

theorem mem_clauseWords {word : Text} (h : word ∈ nextWords) : word ∈ clauseWords := by
  have hall : ∀ word ∈ nextWords, word ∈ clauseWords := by decide
  exact hall word h

theorem scanAlias_clauseWord {word : Text} (h : word ∈ clauseWords) (rest : Text) :
    scanAlias (word ++ ' ' :: rest) = none := by
  have hsame : clauseWords.any (Text.sameLetters word) = true :=
    List.any_eq_true.mpr ⟨word, h, by rw [Text.sameLetters, beq_self_eq_true]⟩
  unfold scanAlias
  rw [scanName_append (isIdentifier_of_mem h) rfl]
  dsimp only
  rw [hsame, if_pos rfl]

theorem afterGap_space {t : Text} (ht : t.head?.any isGap = false) :
    afterGap (' ' :: t) = some t := by
  have hgap : isGap ' ' = true := rfl
  rw [afterGap, if_pos hgap, skipGaps_of_head ht]

theorem afterGap_name {name : Text} (hname : isIdentifier name = true) (t : Text) :
    afterGap (' ' :: (name ++ t)) = some (name ++ t) :=
  afterGap_space (head?_gap hname t)

theorem endsAlias_conditionsPart (conditions : Option Text) :
    EndsAlias (conditionsPart conditions) := by
  cases conditions with
  | none => exact Or.inl rfl
  | some conditions => exact Or.inr ⟨"WHERE", List.mem_cons_of_mem _ List.mem_cons_self, _, rfl⟩

theorem trimLeft_of_head {s : Text} (hs : s.head?.any isBlank = false) : s.trimLeft = s :=
  (span_append (s := []) s (by simp) hs).2

theorem trimLeft_space {s : Text} (hs : s.head?.any isBlank = false) :
    Text.trimLeft (' ' :: s) = s := by
  have hblank : isBlank ' ' = true := by decide
  rw [Text.trimLeft, List.dropWhile_cons, if_pos hblank]
  exact trimLeft_of_head hs

theorem head?_blank {name : Text} (hname : isIdentifier name = true) (t : Text) :
    (name ++ t).head?.any isBlank = false := by
  obtain ⟨c, cs, rfl, hc, -⟩ := isIdentifier_eq_true.mp hname
  exact not_isBlank_of_isNameChar (isNameChar_of_isNameStart hc)

theorem isIdentifier_where : isIdentifier "WHERE".toList = true := by decide

theorem trimLeft_conditionsPart (conditions : Text) :
    (conditionsPart (some conditions)).trimLeft = "WHERE" ++ ' ' :: conditions :=
  trimLeft_space (head?_blank isIdentifier_where _)

theorem afterKeyword_word {keyword word : Text} (hkeyword : IsKeyword keyword)
    (hword : isIdentifier word = true) (hne : word.sameLetters keyword = false) (t : Text) :
    afterKeyword keyword (word ++ ' ' :: t) = none :=
  afterKeyword_name hkeyword hword hne rfl

end Query

namespace Source

theorem scanAliasAfterGap_append {var : Option Text} (hvar : ∀ name ∈ var, IsAlias name) {t : Text}
    (ht : EndsAlias t) : scanAliasAfterGap (aliasPart var ++ t) = (var, t) := by
  cases var with
  | none =>
    apply optional_of_none
    rcases ht with rfl | ⟨word, hword, rest, rfl⟩
    · rfl
    · have hclause := mem_clauseWords hword
      rw [aliasPart, List.nil_append, afterGap_name (isIdentifier_of_mem hclause)]
      exact scanAlias_clauseWord hclause rest
  | some name =>
    have hname := hvar name rfl
    apply optional_of_some
    rw [aliasPart, List.cons_append, afterGap_name hname.1]
    exact scanAlias_append hname ht.head

theorem endsAlias_print (j : Join) (t : Text) : EndsAlias (j.print ++ t) := by
  refine Or.inr ⟨"JOIN", List.mem_cons_self, j.target ++ ' ' :: ("RELATED" ++ ' ' ::
    (j.source ++ '.' :: (j.relationship ++ (aliasPart j.var ++ t)))), ?_⟩
  simp [Join.print]

theorem scanJoin_print {j : Join} (hj : j.Legal) {t : Text} (ht : EndsAlias t) :
    scanJoin (j.print ++ t) = some (j, t) := by
  obtain ⟨target, source, relationship, var⟩ := j
  have hback : (aliasPart var ++ t).head?.any isNameChar = false := by
    cases var with
    | none => exact ht.head
    | some name => rfl
  have htext : Join.print ⟨target, source, relationship, var⟩ ++ t =
      ' ' :: ("JOIN" ++ ' ' :: (target ++ ' ' :: ("RELATED" ++ ' ' :: (source ++ '.' ::
        (relationship ++ (aliasPart var ++ t)))))) := by
    simp [Join.print]
  have htarget : ∀ s : Text, scanAlias (target ++ ' ' :: s) = some (target, ' ' :: s) :=
    fun s => scanAlias_append hj.target rfl
  have hsource : ∀ s : Text, scanAlias (source ++ '.' :: s) = some (source, '.' :: s) :=
    fun s => scanAlias_append hj.source rfl
  have hjoin : "JOIN".toList ∈ clauseWords := by decide
  have hrelated : "RELATED".toList ∈ clauseWords := by decide
  have hdot : ∀ s : Text, Text.after? ['.'] ('.' :: s) = some s := fun _ => rfl
  rw [htext]
  simp only [scanJoin, Option.bind_eq_bind, afterGap_name (isIdentifier_of_mem hjoin),
    Option.bind_some, afterKeyword_append_space, afterGap_name hj.target.1, htarget,
    afterGap_name (isIdentifier_of_mem hrelated), afterGap_name hj.source.1, hsource, hdot,
    scanName_append hj.relationship hback, scanAliasAfterGap_append hj.var ht]

theorem clauseEnd_conditionsPart (conditions : Option Text) :
    clauseEnd (conditionsPart conditions) = some (conditionsPart conditions).trimLeft := by
  cases conditions with
  | none => rfl
  | some conditions =>
    rw [clauseEnd, trimLeft_conditionsPart, afterKeyword_append_space, Option.isSome_some,
      Bool.or_true, if_pos rfl]

theorem scanCollection_append (kind : Collection) {var : Option Text}
    (hvar : ∀ name ∈ var, IsAlias name) (conditions : Option Text) :
    scanCollection kind (aliasPart var ++ conditionsPart conditions) =
      some (.collection kind var, (conditionsPart conditions).trimLeft) := by
  simp only [scanCollection, scanAliasAfterGap_append hvar (endsAlias_conditionsPart conditions),
    clauseEnd_conditionsPart, Option.bind_eq_bind, Option.bind_some]

theorem scanJoin_conditionsPart (conditions : Option Text) :
    scanJoin (conditionsPart conditions) = none := by
  cases conditions with
  | none => rfl
  | some conditions =>
    have hword : afterKeyword "JOIN" ("WHERE" ++ ' ' :: conditions) = none :=
      afterKeyword_word (by decide) isIdentifier_where (by decide) conditions
    rw [scanJoin, conditionsPart, afterGap_name isIdentifier_where]
    simp only [Option.bind_eq_bind, Option.bind_some, hword, Option.bind_none]

theorem scanJoins_print {var : Option Text} (hvar : ∀ name ∈ var, IsAlias name) {links : List Join}
    (hne : links ≠ []) (hlinks : ∀ link ∈ links, link.Legal) (conditions : Option Text) :
    scanJoins (aliasPart var ++ ((links.map Join.print).flatten ++ conditionsPart conditions)) =
      some (.joins var links, (conditionsPart conditions).trimLeft) := by
  obtain ⟨first, more, rfl⟩ := List.exists_cons_of_ne_nil hne
  rw [List.forall_mem_cons] at hlinks
  have hmore : many scanJoin ((more.map Join.print).flatten ++ conditionsPart conditions) =
      (more, conditionsPart conditions) := by
    refine many_append Join.print EndsAlias (fun link hlink t ht => scanJoin_print
      (hlinks.2 link hlink) ht) (fun link _ => ⟨List.cons_ne_nil _ _, endsAlias_print link⟩)
      (endsAlias_conditionsPart conditions) (scanJoin_conditionsPart conditions)
  have hnext : EndsAlias ((more.map Join.print).flatten ++ conditionsPart conditions) := by
    cases more with
    | nil => exact endsAlias_conditionsPart conditions
    | cons link more =>
      rw [List.map_cons, List.flatten_cons, List.append_assoc]
      exact endsAlias_print link _
  rw [List.map_cons, List.flatten_cons, List.append_assoc]
  simp only [scanJoins, scanAliasAfterGap_append hvar (endsAlias_print first _),
    scanJoin_print hlinks.1 hnext, hmore, clauseEnd_conditionsPart, Option.bind_eq_bind,
    Option.bind_some]

/-- Neither joins nor a pattern are read where an alias or the conditions stand. -/
theorem scanJoins_conditionsPart {var : Option Text} (hvar : ∀ name ∈ var, IsAlias name)
    (conditions : Option Text) : scanJoins (aliasPart var ++ conditionsPart conditions) = none := by
  simp only [scanJoins, scanAliasAfterGap_append hvar (endsAlias_conditionsPart conditions),
    scanJoin_conditionsPart, Option.bind_eq_bind, Option.bind_none]

theorem scanMatch_append {var : Option Text} (hvar : ∀ name ∈ var, IsAlias name) {t : Text}
    (ht : EndsAlias t) : scanMatch (aliasPart var ++ t) = none := by
  have hmatch : IsKeyword "MATCH" := by decide
  cases var with
  | none =>
    rcases ht with rfl | ⟨word, hword, rest, rfl⟩
    · rfl
    · have hall : ∀ word ∈ nextWords, word.sameLetters "MATCH" = false := by decide
      have hname := isIdentifier_of_mem (mem_clauseWords hword)
      have hnone := afterKeyword_word hmatch hname (hall word hword) rest
      rw [scanMatch, aliasPart, List.nil_append, afterGap_name hname]
      simp only [Option.bind_eq_bind, Option.bind_some, hnone, Option.bind_none]
  | some name =>
    have hname := hvar name rfl
    have hne : name.sameLetters "MATCH" = false := by
      have hreserved : "MATCH".toList ∈ clauseWords := by decide
      refine Bool.eq_false_iff.mpr fun hsame => ?_
      have hword := List.any_eq_true.mpr ⟨_, hreserved, hsame⟩
      rw [hname.2] at hword
      cases hword
    have hword : afterKeyword "MATCH" (name ++ t) = none :=
      afterKeyword_name hmatch hname.1 hne ht.head
    simp only [scanMatch, aliasPart, List.cons_append, afterGap_name hname.1, Option.bind_eq_bind,
      Option.bind_some, hword, Option.bind_none]

/-- The pattern ends in front of the conditions, and the space between them is no part of it. -/
theorem findKeyword_conditionsPart {pattern : Text} (hpattern : Tight pattern)
    (conditions : Option Text) : ∃ blanks, (∀ c ∈ blanks, isBlank c = true) ∧
      (findKeyword "WHERE" (pattern ++ conditionsPart conditions)).getD
        (pattern ++ conditionsPart conditions, []) =
        (pattern ++ blanks, (conditionsPart conditions).trimLeft) := by
  have hkeyword : IsKeyword "WHERE" := by decide
  have hlacks : Lacks "WHERE" pattern := hpattern.lacks hkeyword
  cases conditions with
  | none =>
    refine ⟨[], by simp, ?_⟩
    rw [conditionsPart, List.append_nil, (findKeyword_eq_none hkeyword).mpr hlacks]
    rfl
  | some conditions =>
    have hword : (afterKeyword "WHERE" ("WHERE" ++ ' ' :: conditions)).isSome = true := by
      rw [afterKeyword_append_space]
      rfl
    refine ⟨[' '], by decide, ?_⟩
    rw [trimLeft_conditionsPart, conditionsPart,
      findKeyword_append hkeyword (closed_of_quoteless hpattern.quoteless) hlacks hword]
    rfl

theorem scanMatch_print {comma : Text} (hcomma : comma = "," ∨ comma = ", ")
    {patterns : List PathPattern} (hne : patterns ≠ []) (hpatterns : ∀ p ∈ patterns, p.Legal)
    (conditions : Option Text) :
    scanMatch (' ' :: ("MATCH" ++ ' ' :: (Text.separated comma (patterns.map PathPattern.print) ++
      conditionsPart conditions))) =
      some (.paths patterns, (conditionsPart conditions).trimLeft) := by
  have htight := PathPattern.tight_separated hcomma hpatterns
  have hscan := scanPaths_print hcomma hne hpatterns
  have hlast := PathPattern.getLast?_separated comma hne
  obtain ⟨blanks, hblanks, hfind⟩ := findKeyword_conditionsPart htight conditions
  have hright : (Text.separated comma (patterns.map PathPattern.print) ++ blanks).trimRight =
      Text.separated comma (patterns.map PathPattern.print) := by
    rw [Text.trimRight_append_blanks _ hblanks]
    obtain ⟨init, hinit⟩ := List.getLast?_eq_some_iff.mp hlast
    rw [hinit]
    exact Text.trimRight_of_last init (by decide)
  have hleft : Text.trimLeft (' ' :: (Text.separated comma (patterns.map PathPattern.print) ++
      conditionsPart conditions)) =
      Text.separated comma (patterns.map PathPattern.print) ++ conditionsPart conditions := by
    apply trimLeft_space
    obtain ⟨first, more, rfl⟩ := List.exists_cons_of_ne_nil hne
    rw [List.map_cons, separated_eq]
    rfl
  have hword : isIdentifier "MATCH".toList = true := by decide
  simp only [scanMatch, afterGap_name hword, afterKeyword_append_space, Option.bind_eq_bind,
    Option.bind_some, hleft, hfind, hright, hscan]
  rfl

theorem scan_print {comma : Text} (hcomma : comma = "," ∨ comma = ", ") {source : Source}
    (hsource : source.Legal) (conditions : Option Text) :
    scan (source.print comma ++ conditionsPart conditions) =
      some (source, (conditionsPart conditions).trimLeft) := by
  have htwins : ∀ {t : Text}, t.head?.any isNameChar = false →
      afterKeyword Collection.relationships.keyword (Collection.twins.keyword ++ t) = none :=
    fun ht => afterKeyword_name (by decide) (by decide) (by decide) ht
  have hhead : ∀ (var : Option Text) {t : Text}, t.head?.any isNameChar = false →
      (aliasPart var ++ t).head?.any isNameChar = false := by
    intro var t ht
    cases var with
    | none => exact ht
    | some name => rfl
  cases source with
  | collection kind var =>
    have hend := endsAlias_conditionsPart conditions
    have hback := hhead var hend.head
    have hcollection := fun kind => scanCollection_append kind hsource conditions
    rw [print, List.append_assoc, scan]
    cases kind with
    | relationships =>
      rw [afterKeyword_append_self _ hback]
      exact hcollection .relationships
    | twins =>
      simp only [htwins hback, afterKeyword_append_self _ hback, Option.bind_eq_bind,
        Option.bind_some, scanMatch_append hsource hend, scanJoins_conditionsPart hsource,
        Option.none_or]
      exact hcollection .twins
  | joins var links =>
    obtain ⟨hvar, hne, hlinks⟩ := hsource
    have hend : EndsAlias ((links.map Join.print).flatten ++ conditionsPart conditions) := by
      obtain ⟨first, more, rfl⟩ := List.exists_cons_of_ne_nil hne
      rw [List.map_cons, List.flatten_cons, List.append_assoc]
      exact endsAlias_print first _
    have hback := hhead var hend.head
    rw [print, List.append_assoc, List.append_assoc, scan]
    simp only [htwins hback, afterKeyword_append_self _ hback, Option.bind_eq_bind,
      Option.bind_some, scanMatch_append hvar hend, scanJoins_print hvar hne hlinks conditions,
      Option.none_or, Option.some_or]
  | paths patterns =>
    have hmatch := scanMatch_print hcomma hsource.1 hsource.2 conditions
    have htext : print comma (.paths patterns) ++ conditionsPart conditions =
        Collection.twins.keyword ++ ' ' :: ("MATCH" ++ ' ' ::
          (Text.separated comma (patterns.map PathPattern.print) ++
            conditionsPart conditions)) := by
      simp only [print, List.append_assoc, List.cons_append]
    have hnone := fun s : Text => htwins (t := ' ' :: s) rfl
    rw [htext, scan]
    simp only [hnone, afterKeyword_append_space, Option.bind_eq_bind, Option.bind_some, hmatch,
      Option.some_or]

theorem read_print {comma : Text} (hcomma : comma = "," ∨ comma = ", ") {source : Source}
    (hsource : source.Legal) (conditions : Option Text) :
    Source.read ("FROM" ++ ' ' :: (source.print comma ++ conditionsPart conditions)) =
      .ok (source, (conditionsPart conditions).trimLeft) := by
  have hfrom : isIdentifier "FROM".toList = true := by decide
  have hhead : (source.print comma ++ conditionsPart conditions).head?.any isBlank = false := by
    have hkind : ∀ kind : Collection, isIdentifier kind.keyword = true := by
      intro kind
      cases kind <;> decide
    cases source with
    | collection kind var =>
      rw [print, List.append_assoc]
      exact head?_blank (hkind kind) _
    | joins var links | paths patterns =>
      rw [print, List.append_assoc]
      exact head?_blank (hkind .twins) _
  rw [Source.read, trimLeft_of_head (head?_blank hfrom _), afterKeyword_append_space]
  dsimp only
  rw [trimLeft_space hhead, scan_print hcomma hsource]

end Source

namespace Query

theorem trim_around {left s right : Text} (hleft : ∀ c ∈ left, isBlank c = true)
    (hright : ∀ c ∈ right, isBlank c = true) (hne : s ≠ []) (hs : s.trim = s) :
    Text.trim (left ++ (s ++ right)) = s := by
  have hhead : (s ++ right).head?.any isBlank = false := by
    obtain ⟨c, cs, rfl⟩ := List.exists_cons_of_ne_nil hne
    have h := Text.head?_trim (c :: cs)
    rw [hs] at h
    exact h c rfl
  have hdrop := (span_append (s ++ right) hleft hhead).2
  have hlast := Text.trimRight_trim s
  rw [hs] at hlast
  rw [Text.trim, Text.trimLeft, hdrop, Text.trimRight_append_blanks _ hright, hlast]

theorem exists_last {s : Text} (hne : s ≠ []) (hs : s.trim = s) :
    ∃ init c, s = init ++ [c] ∧ isBlank c = false := by
  have hright := Text.trimRight_trim s
  rw [hs] at hright
  obtain ⟨init, c, rfl⟩ : ∃ init c, s = init ++ [c] :=
    ⟨s.dropLast, s.getLast hne, (List.dropLast_append_getLast hne).symm⟩
  refine ⟨init, c, rfl, Bool.eq_false_iff.mpr fun hc => ?_⟩
  rw [Text.trimRight_append_blanks init (by simpa using hc)] at hright
  obtain ⟨blanks, hinit, -⟩ := Text.trimRight_append init
  have hlength := congrArg List.length hinit
  rw [hright] at hlength
  simp only [List.length_append, List.length_singleton] at hlength
  omega

theorem readWhere_conditionsPart {conditions : Option Text}
    (h : ∀ s ∈ conditions, s ≠ [] ∧ s.trim = s) :
    readWhere (conditionsPart conditions).trimLeft = .ok conditions := by
  cases conditions with
  | none => rfl
  | some conditions =>
    obtain ⟨hne, htrim⟩ := h conditions rfl
    have hinner : Text.trim (' ' :: conditions) = conditions := by
      have h : Text.trim ([' '] ++ (conditions ++ [])) = conditions :=
        trim_around (by decide) (by simp) hne htrim
      rwa [List.append_nil] at h
    have houter : Text.trim ("WHERE" ++ ' ' :: conditions) = "WHERE" ++ ' ' :: conditions := by
      obtain ⟨init, c, rfl, hc⟩ := exists_last hne htrim
      have htext : "WHERE".toList ++ ' ' :: (init ++ [c]) =
          "WHERE".toList ++ ' ' :: init ++ [c] := by
        simp only [List.append_assoc, List.cons_append]
      rw [Text.trim, trimLeft_of_head (head?_blank isIdentifier_where _), htext]
      exact Text.trimRight_of_last _ hc
    have hempty : ¬conditions.isEmpty = true := fun h => hne (List.isEmpty_iff.mp h)
    have hword : ("WHERE".toList ++ ' ' :: conditions).isEmpty = false := by simp
    rw [trimLeft_conditionsPart, readWhere, houter, hword, if_neg Bool.false_ne_true,
      afterKeyword_append_space]
    dsimp only
    rw [hinner, if_neg hempty]

theorem afterSpaced_eq_some {c : Char} {s rest : Text} (h : afterSpaced c s = some rest) :
    ∃ before after : Text, s = before ++ c :: (after ++ rest) ∧
      (∀ d ∈ before, isGap d = true) ∧ ∀ d ∈ after, isGap d = true := by
  obtain ⟨t, hmark, rfl⟩ := Option.map_eq_some_iff.mp h
  have hgap : ∀ s : Text, ∀ d ∈ s.takeWhile isGap, isGap d = true := fun s d hd =>
    List.all_eq_true.mp List.all_takeWhile d hd
  refine ⟨s.takeWhile isGap, t.takeWhile isGap, ?_, hgap s, hgap t⟩
  have hfront : skipGaps s = c :: t := Text.after?_eq_some_iff.mp hmark
  have hback : t.takeWhile isGap ++ skipGaps t = t := List.takeWhile_append_dropWhile
  rw [hback, ← hfront]
  exact List.takeWhile_append_dropWhile.symm

theorem scanDigits_eq_some {s digits rest : Text} (h : scanDigits s = some (digits, rest)) :
    s = digits ++ rest ∧ digits ≠ [] ∧ ∀ c ∈ digits, c.isDigit = true := by
  obtain ⟨heq, hne, -⟩ := scanDigits_readsText h
  refine ⟨heq, hne, ?_⟩
  cases s with
  | nil => cases h
  | cons c cs =>
    rw [scanDigits] at h
    split at h
    · next hc =>
      cases h
      exact List.forall_mem_cons.mpr ⟨hc, fun d hd => List.all_eq_true.mp List.all_takeWhile d hd⟩
    · cases h

def Limits (digits s : Text) : Prop :=
  ∃ word rest gap₁ gap₂ gap₃ : Text,
    s = word ++ (gap₁ ++ '(' :: (gap₂ ++ (digits ++ (gap₃ ++ ')' :: rest)))) ∧
    word.sameLetters "TOP" = true ∧ digits ≠ [] ∧ (∀ c ∈ digits, c.isDigit = true) ∧
    ∀ c ∈ gap₁ ++ (gap₂ ++ gap₃), isGap c = true

theorem limits_of_scanTop {s digits rest : Text} (h : scanTop s = some (digits, rest)) :
    Limits digits s := by
  simp only [scanTop, Option.bind_eq_bind, Option.bind_eq_some_iff, Option.some.injEq,
    Prod.mk.injEq] at h
  obtain ⟨s₁, hword, s₂, hopen, ⟨digits', s₃⟩, hdigits, s₄, hclose, rfl, rfl⟩ := h
  obtain ⟨word, rfl, hsame, -⟩ := afterKeyword_eq_some hword
  obtain ⟨gap₁, gap₂, rfl, hgap₁, hgap₂⟩ := afterSpaced_eq_some hopen
  obtain ⟨rfl, hne, hdigit⟩ := scanDigits_eq_some hdigits
  obtain ⟨gap₃, gap₄, rfl, hgap₃, -⟩ := afterSpaced_eq_some hclose
  refine ⟨word, gap₄ ++ s₄, gap₁, gap₂, gap₃, rfl, hsame, hne, hdigit, ?_⟩
  simp only [List.forall_mem_append]
  exact ⟨hgap₁, hgap₂, hgap₃⟩

/-- What is read as a limit reaches to a parenthesis, and no letter F stands before that. -/
theorem scanTop_eq_some {s digits rest : Text} (h : scanTop s = some (digits, rest)) :
    ∃ front back, s = front ++ ')' :: back ∧ (∀ c ∈ front, c ≠ 'F') ∧
      ∀ t, LeadsTop (front ++ ')' :: t) := by
  obtain ⟨word, back, gap₁, gap₂, gap₃, rfl, hsame, hne, hdigit, hgaps⟩ := limits_of_scanTop h
  obtain ⟨hgap₁, hgap₂, hgap₃⟩ : (∀ c ∈ gap₁, isGap c = true) ∧ (∀ c ∈ gap₂, isGap c = true) ∧
      ∀ c ∈ gap₃, isGap c = true := by
    simpa only [List.forall_mem_append] using hgaps
  have hwordF : ∀ c ∈ word, c ≠ 'F' := by
    rintro c hc rfl
    have hletters : 'F'.toLower ∉ Text.foldCase "TOP" := by decide
    rw [Text.sameLetters, beq_iff_eq] at hsame
    rw [← hsame] at hletters
    exact hletters (List.mem_map_of_mem hc)
  have hgapF : ∀ {gap : Text}, (∀ d ∈ gap, isGap d = true) → ∀ c ∈ gap, c ≠ 'F' := by
    rintro gap hgap c hc rfl
    exact absurd (hgap _ hc) (by decide)
  have hdigitF : ∀ c ∈ digits, c ≠ 'F' := by
    rintro c hc rfl
    exact absurd (hdigit _ hc) (by decide)
  refine ⟨word ++ (gap₁ ++ '(' :: (gap₂ ++ (digits ++ gap₃))), back, by simp, ?_, fun t => ?_⟩
  · simp only [List.forall_mem_append, List.forall_mem_cons]
    exact ⟨hwordF, hgapF hgap₁, by decide, hgapF hgap₂, hdigitF, hgapF hgap₃⟩
  · exact ⟨word, digits, t, gap₁, gap₂, gap₃, by simp, hsame, hne, hdigit, hgaps⟩

/-- Without a limit at their front, the projections are not taken for one. -/
theorem scanTop_projections {projections : Text} (h : ¬LeadsTop projections) (t : Text) :
    scanTop (projections ++ ' ' :: 'F' :: t) = none := by
  cases hscan : scanTop (projections ++ ' ' :: 'F' :: t) with
  | none => rfl
  | some found =>
    obtain ⟨front, back, heq, hfront, hleads⟩ := scanTop_eq_some hscan
    rcases List.append_eq_append_iff.mp heq with ⟨between, rfl, hback⟩ | ⟨between, rfl, hback⟩
    · -- The parenthesis would stand behind the projections, with the letter F before it.
      cases between with
      | nil => simp at hback
      | cons c between =>
        cases between with
        | nil => simp at hback
        | cons d between =>
          simp only [List.cons_append, List.cons.injEq] at hback
          exact absurd hback.2.1.symm (hfront d (by simp))
    · cases between with
      | nil => simp at hback
      | cons c between =>
        obtain rfl : ')' = c := (List.cons.inj hback).1
        exact absurd (hleads between) h

theorem scanTop_print (n : Nat) {s : Text} (hs : s.head?.any isGap = false) :
    scanTop ("TOP" ++ '(' :: (Text.ofNat n ++ ')' :: ' ' :: s)) = some (Text.ofNat n, s) := by
  have hdigit : ∀ c ∈ Text.ofNat n, c.isDigit = true := fun c hc => Json.isDigit_of_mem_ofNat hc
  have hne : Text.ofNat n ≠ [] := Nat.toDigits_ne_nil
  have hdigits : scanDigits (Text.ofNat n ++ ')' :: ' ' :: s) =
      some (Text.ofNat n, ')' :: ' ' :: s) :=
    scanDigits_append hne hdigit rfl
  have hword : afterKeyword "TOP" ("TOP" ++ '(' :: (Text.ofNat n ++ ')' :: ' ' :: s)) =
      some ('(' :: (Text.ofNat n ++ ')' :: ' ' :: s)) := afterKeyword_append_self "TOP" rfl
  have hopen : afterSpaced '(' ('(' :: (Text.ofNat n ++ ')' :: ' ' :: s)) =
      some (Text.ofNat n ++ ')' :: ' ' :: s) := by
    apply afterSpaced_cons rfl
    obtain ⟨c, cs, hcs⟩ := List.exists_cons_of_ne_nil hne
    have hc : isNameChar c = true := by
      have h := hdigit c (hcs ▸ List.mem_cons_self)
      rw [isNameChar, Char.isAlphanum, h, Bool.or_true, Bool.true_or]
    rw [hcs]
    exact not_isGap_of_isNameChar hc
  have hclose : afterSpaced ')' (')' :: ' ' :: s) = some s := by
    have hmark : Text.after? [')'] (skipGaps (')' :: ' ' :: s)) = some (' ' :: s) := rfl
    rw [afterSpaced, hmark, Option.map_some, skipGaps_space hs]
  simp only [scanTop, hword, hopen, hdigits, hclose, Option.bind_eq_bind, Option.bind_some]

theorem readTop_print {top : Option Nat} (htop : ∀ n ∈ top, n ≤ maxTop) {projections : Text}
    (hlacks : top = none → ¬LeadsTop projections)
    (hhead : ∀ t : Text, (projections ++ t).head?.any isGap = false) (t : Text) :
    readTop (topPart top ++ (projections ++ ' ' :: 'F' :: t)) =
      .ok (top, projections ++ ' ' :: 'F' :: t) := by
  cases top with
  | none => rw [topPart, List.nil_append, readTop, scanTop_projections (hlacks rfl)]
  | some n =>
    have htext : topPart (some n) ++ (projections ++ ' ' :: 'F' :: t) =
        "TOP" ++ '(' :: (Text.ofNat n ++ ')' :: ' ' :: (projections ++ ' ' :: 'F' :: t)) := by
      simp [topPart]
    rw [htext, readTop, scanTop_print n (hhead _)]
    dsimp only
    rw [Json.natValue_ofNat, if_pos (htop n rfl)]

theorem readSelect_print {q : Query} (hq : q.Legal) (t : Text) :
    readSelect ("SELECT" ++ ' ' ::
      (topPart q.top ++ (q.projections ++ ' ' :: ("FROM" ++ ' ' :: t)))) =
      .ok (q.top, q.projections, "FROM" ++ ' ' :: t) := by
  have hblank : ∀ s : Text, (q.projections ++ s).head?.any isBlank = false := by
    intro s
    obtain ⟨c, cs, hcs⟩ := List.exists_cons_of_ne_nil hq.projections
    have h := Text.head?_trim q.projections
    rw [hq.trimmed, hcs] at h
    rw [hcs]
    exact h c rfl
  have hgap : ∀ s : Text, (q.projections ++ s).head?.any isGap = false := by
    intro s
    obtain ⟨c, cs, hcs⟩ := List.exists_cons_of_ne_nil hq.projections
    have hc := hblank s
    rw [hcs] at hc ⊢
    refine Bool.eq_false_iff.mpr fun h => ?_
    have hc' : isBlank c = false := hc
    rw [isBlank_of_isGap h] at hc'
    cases hc'
  have hselect : isIdentifier "SELECT".toList = true := by decide
  have hskip : skipGaps (' ' :: (topPart q.top ++ (q.projections ++ ' ' :: ("FROM" ++ ' ' :: t)))) =
      topPart q.top ++ (q.projections ++ ' ' :: ("FROM" ++ ' ' :: t)) := by
    apply skipGaps_space
    cases q.top with
    | none => exact hgap _
    | some n =>
      have hword : isIdentifier "TOP".toList = true := by decide
      rw [topPart, List.append_assoc]
      exact head?_gap hword _
  have hfrom : "FROM".toList ++ ' ' :: t = 'F' :: ("ROM".toList ++ ' ' :: t) := by
    have hword : "FROM".toList = 'F' :: "ROM".toList := by decide
    rw [hword]
    rfl
  have htop : readTop (topPart q.top ++ (q.projections ++ ' ' :: ("FROM" ++ ' ' :: t))) =
      .ok (q.top, q.projections ++ ' ' :: ("FROM" ++ ' ' :: t)) := by
    rw [hfrom]
    exact readTop_print hq.top hq.lacksTop hgap _
  have hword : (afterKeyword "FROM" ("FROM" ++ ' ' :: t)).isSome = true := by
    rw [afterKeyword_append_space]
    rfl
  have hfind := findKeyword_append (by decide) hq.closed hq.lacksFrom hword
  have htrim : Text.trim (q.projections ++ [' ']) = q.projections :=
    @trim_around [] q.projections [' '] (by simp) (by decide) hq.projections hq.trimmed
  have hempty : ¬q.projections.isEmpty = true := fun h => hq.projections (List.isEmpty_iff.mp h)
  rw [readSelect, skipGaps_of_head (head?_gap hselect _), afterKeyword_append_space]
  dsimp only
  rw [hskip, htop]
  dsimp only [bind, Except.bind]
  rw [hfind]
  dsimp only
  rw [htrim, if_neg hempty]

/-- Reading undoes printing. -/
theorem read_printed {comma : Text} (hcomma : comma = "," ∨ comma = ", ") {q : Query}
    (hq : q.Legal) : Query.read (q.print comma) = .ok q := by
  refine Outcome.bind_eq_ok.mpr ⟨_, readSelect_print hq _, ?_⟩
  refine Outcome.bind_eq_ok.mpr ⟨_, Source.read_print hcomma hq.source q.conditions, ?_⟩
  refine Outcome.bind_eq_ok.mpr ⟨_, readWhere_conditionsPart hq.conditions, ?_⟩
  exact Outcome.pure_eq_ok.mpr rfl

/-- Names that are clause words, a keyword in a literal, and conditions that are no expression. -/
def wordyQuery : Query where
  top := none
  projections := "'x FROM y'"
  source := .paths [⟨⟨some "WHERE", none⟩, [
    (⟨.incoming, some ⟨none, ["has", "From"], some "*1..3"⟩⟩, ⟨none, none⟩),
    (⟨.either, none⟩, ⟨some "b", some "Top"⟩)]⟩]
  conditions := some "b = 'y"

theorem wordyQuery_reads_back : wordyQuery.Legal ∧ Query.read
    "SELECT 'x FROM y' FROM DIGITALTWINS MATCH (WHERE)<-[:has|From*1..3]-()--(b:Top) WHERE b = 'y" =
      .ok wordyQuery := by
  have hhops : IsHops "*1..3" := ⟨['1'], by decide, Or.inr ⟨['3'], by decide, by decide +kernel⟩⟩
  have htop : ¬LeadsTop wordyQuery.projections := by
    rintro ⟨word, digits, rest, gap₁, gap₂, gap₃, heq, hsame, -⟩
    have hhead : wordyQuery.projections.head? = some '\'' := by decide +kernel
    have hletters : '\''.toLower ∉ Text.foldCase "TOP" := by decide +kernel
    have hempty : Text.sameLetters [] "TOP" = false := by decide +kernel
    cases word with
    | nil =>
      rw [hempty] at hsame
      cases hsame
    | cons c word =>
      rw [heq] at hhead
      obtain rfl : c = '\'' := Option.some.inj hhead
      rw [Text.sameLetters, beq_iff_eq] at hsame
      rw [← hsame] at hletters
      exact hletters List.mem_cons_self
  have hfrom : Lacks "FROM" wordyQuery.projections :=
    (findKeyword_eq_none (by decide +kernel)).mp (by decide +kernel)
  have hedge : EdgePattern.Legal ⟨.incoming, some ⟨none, ["has", "From"], some "*1..3"⟩⟩ := by
    rintro detail ⟨⟩
    refine ⟨by decide, by decide +kernel, ?_⟩
    rintro hops ⟨⟩
    exact hhops
  have hbare : EdgePattern.Legal ⟨.either, none⟩ := by rintro detail ⟨⟩
  have hsource : wordyQuery.source.Legal := by
    refine ⟨List.cons_ne_nil _ _, List.forall_mem_singleton.mpr
      ⟨⟨by decide +kernel, by decide⟩, List.forall_mem_cons.mpr ⟨⟨hedge, by decide, by decide⟩,
        List.forall_mem_singleton.mpr ⟨hbare, by decide +kernel, by decide +kernel⟩⟩⟩⟩
  have hlegal : wordyQuery.Legal :=
    ⟨by decide, by decide +kernel, by decide +kernel, by decide +kernel, hfrom, fun _ => htop,
      hsource, by decide +kernel⟩
  have hprint : wordyQuery.print "," =
      "SELECT 'x FROM y' FROM DIGITALTWINS MATCH (WHERE)<-[:has|From*1..3]-()--(b:Top) WHERE b = 'y" := by
    decide +kernel
  exact ⟨hlegal, (congrArg Query.read hprint).symm.trans (read_printed (Or.inl rfl) hlegal)⟩

end Query
end TwinGraph
