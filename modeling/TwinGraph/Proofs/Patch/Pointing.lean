import TwinGraph.Patch.Pointer
import TwinGraph.Proofs.Client.Tokens
import TwinGraph.Proofs.Text.Pieces

/-! What pointers point at. A pointer is cut at its slashes, each part is read in one pass, and the
keys that come out can be told from the property path that is made of them. -/
namespace TwinGraph
namespace Pointer

/-- One pass over a part: `~1` is a slash, `~0` a tilde, and everything else stays. -/
def readSegment : Text → Text
  | [] => []
  | '~' :: '1' :: s => '/' :: readSegment s
  | '~' :: '0' :: s => '~' :: readSegment s
  | c :: s => c :: readSegment s

def writeSegment : Text → Text
  | [] => []
  | c :: s =>
    if c = '~' then '~' :: '0' :: writeSegment s
    else if c = '/' then '~' :: '1' :: writeSegment s
    else c :: writeSegment s

def write (keys : List Text) : Text := '/' :: Text.separated ['/'] (keys.map writeSegment)

/-! ### Reading a part -/

section Marks

variable {digit plain c : Char} {s : Text}

theorem replaceMark_mark : replaceMark digit plain ('~' :: digit :: s) =
    plain :: replaceMark digit plain s := by
  rw [replaceMark, if_pos rfl]

theorem replaceMark_tilde (h : s.head? ≠ some digit) :
    replaceMark digit plain ('~' :: s) = '~' :: replaceMark digit plain s := by
  cases s with
  | nil => rfl
  | cons d s =>
    have hd : d ≠ digit := fun heq => h (congrArg some heq)
    rw [replaceMark, if_neg hd]

theorem replaceMark_other (h : c ≠ '~') :
    replaceMark digit plain (c :: s) = c :: replaceMark digit plain s := by
  rw [replaceMark]
  intro d t heq
  exact absurd heq h

theorem head?_replaceMark (h : (replaceMark digit plain s).head? = some c) :
    c = plain ∨ s.head? = some c := by
  cases s with
  | nil => cases h
  | cons d s =>
    by_cases hd : d = '~'
    · subst hd
      by_cases hs : s.head? = some digit
      · obtain ⟨t, rfl⟩ := List.head?_eq_some_iff.mp hs
        rw [replaceMark_mark, List.head?_cons, Option.some.injEq] at h
        exact Or.inl h.symm
      · rw [replaceMark_tilde hs] at h
        exact Or.inr h
    · rw [replaceMark_other hd] at h
      exact Or.inr h

theorem readSegment_other (h : c ≠ '~') : readSegment (c :: s) = c :: readSegment s := by
  rw [readSegment]
  · intro t heq
    exact absurd heq h
  · intro t heq
    exact absurd heq h

end Marks

/-- The two replacements, one after the other, are one pass: no tilde that the second one sees
in front of a zero was made by the first. -/
theorem decodeSegment_eq (s : Text) : decodeSegment s = readSegment s := by
  unfold decodeSegment
  induction s using readSegment.induct with
  | case1 => rfl
  | case2 s ih =>
    rw [readSegment, replaceMark_mark, replaceMark_other (by decide), ih]
  | case3 s ih =>
    have hzero : replaceMark '1' '/' ('0' :: s) = '0' :: replaceMark '1' '/' s :=
      replaceMark_other (by decide)
    rw [readSegment, replaceMark_tilde (by simp), hzero, replaceMark_mark, ih]
  | case4 c s hslash htilde ih =>
    have hkeep : readSegment (c :: s) = c :: readSegment s := by
      rw [readSegment]
      · exact hslash
      · exact htilde
    rw [hkeep]
    by_cases hc : c = '~'
    · subst hc
      have hone : s.head? ≠ some '1' := by
        intro h
        obtain ⟨t, rfl⟩ := List.head?_eq_some_iff.mp h
        exact hslash t rfl rfl
      have hzero : (replaceMark '1' '/' s).head? ≠ some '0' := by
        intro h
        rcases head?_replaceMark h with h | h
        · exact absurd h (by decide)
        · obtain ⟨t, rfl⟩ := List.head?_eq_some_iff.mp h
          exact htilde t rfl rfl
      rw [replaceMark_tilde hone, replaceMark_tilde hzero, ih]
    · rw [replaceMark_other hc, replaceMark_other hc, ih]

theorem readSegment_writeSegment (key : Text) : readSegment (writeSegment key) = key := by
  induction key with
  | nil => rfl
  | cons c key ih =>
    rw [writeSegment]
    split
    · next hc => rw [readSegment, ih, hc]
    · next hc =>
      split
      · next hslash => rw [readSegment, ih, hslash]
      · rw [readSegment_other hc, ih]

theorem slash_not_mem_writeSegment (key : Text) : '/' ∉ writeSegment key := by
  induction key with
  | nil => simp [writeSegment]
  | cons c key ih =>
    rw [writeSegment]
    split
    · simpa using ih
    · split
      · simpa using ih
      · next hslash => simpa [Ne.symm hslash] using ih

theorem writeSegment_eq_nil {key : Text} : writeSegment key = [] ↔ key = [] := by
  cases key with
  | nil => simp [writeSegment]
  | cons c key =>
    rw [writeSegment]
    split
    · simp
    · split <;> simp

/-! ### Cutting a pointer -/

/-- The parts of a pointer, each behind a slash of its own. -/
structure Parts (pointer : Text) (parts : List Text) : Prop where
  whole : pointer = '/' :: Text.separated ['/'] parts
  any : parts ≠ []
  plain : ∀ part ∈ parts, '/' ∉ part

theorem parts_pieces (rest : Text) : Parts ('/' :: rest) (rest.pieces (· == '/')) where
  whole := by rw [Text.separated, intercalate_pieces]
  any := Text.pieces_ne_nil _ rest
  plain := by
    intro part hpart hslash
    have hcut := not_cut_of_mem_pieces hpart '/' hslash
    exact absurd hcut (by decide)

theorem Parts.eq_pieces {rest : Text} {parts : List Text} (h : Parts ('/' :: rest) parts) :
    parts = rest.pieces (· == '/') := by
  have hwhole := h.whole
  rw [List.cons.injEq] at hwhole
  rw [hwhole.2, pieces_separated h.any h.plain]

theorem Parts.head? {pointer : Text} {parts : List Text} (h : Parts pointer parts) :
    pointer.head? = some '/' := by
  rw [h.whole, List.head?_cons]

theorem segments_cons (rest : Text) : segments ('/' :: rest) =
    if [] ∈ rest.pieces (· == '/') then .error (.emptySegment ('/' :: rest))
    else .ok ((rest.pieces (· == '/')).map readSegment) := by
  have hany : (rest.pieces (· == '/')).any List.isEmpty = true ↔ [] ∈ rest.pieces (· == '/') := by
    simp [List.any_eq_true]
  have hread : decodeSegment = readSegment := funext decodeSegment_eq
  rw [segments, hread]
  simp only [hany]

theorem segments_relative {pointer : Text} (h : pointer.head? ≠ some '/') :
    segments pointer = .error (.relative pointer) := by
  unfold segments
  split
  · exact absurd rfl h
  · rfl

theorem segments_eq_ok {pointer : Text} {keys : List Text} : segments pointer = .ok keys ↔
    ∃ parts, Parts pointer parts ∧ [] ∉ parts ∧ keys = parts.map readSegment := by
  constructor
  · intro h
    by_cases hslash : pointer.head? = some '/'
    · obtain ⟨rest, rfl⟩ := List.head?_eq_some_iff.mp hslash
      rw [segments_cons] at h
      split at h
      · cases h
      · next hempty =>
        cases h
        exact ⟨_, parts_pieces rest, hempty, rfl⟩
    · rw [segments_relative hslash] at h
      cases h
  · rintro ⟨parts, hparts, hempty, rfl⟩
    obtain ⟨rest, rfl⟩ := List.head?_eq_some_iff.mp hparts.head?
    rw [hparts.eq_pieces] at hempty ⊢
    rw [segments_cons, if_neg hempty]

theorem segments_eq_error {pointer : Text} {fault : PointerFault} :
    segments pointer = .error fault ↔
      pointer.head? ≠ some '/' ∧ fault = .relative pointer ∨
      (∃ parts, Parts pointer parts ∧ [] ∈ parts) ∧ fault = .emptySegment pointer := by
  constructor
  · intro h
    by_cases hslash : pointer.head? = some '/'
    · obtain ⟨rest, rfl⟩ := List.head?_eq_some_iff.mp hslash
      rw [segments_cons] at h
      split at h
      · next hempty =>
        cases h
        exact Or.inr ⟨⟨_, parts_pieces rest, hempty⟩, rfl⟩
      · cases h
    · rw [segments_relative hslash] at h
      cases h
      exact Or.inl ⟨hslash, rfl⟩
  · rintro (⟨hslash, rfl⟩ | ⟨⟨parts, hparts, hempty⟩, rfl⟩)
    · exact segments_relative hslash
    · obtain ⟨rest, rfl⟩ := List.head?_eq_some_iff.mp hparts.head?
      rw [hparts.eq_pieces] at hempty
      rw [segments_cons, if_pos hempty]

theorem parts_write {keys : List Text} (h : keys ≠ []) :
    Parts (write keys) (keys.map writeSegment) where
  whole := rfl
  any := by simpa using h
  plain := by
    intro part hpart
    obtain ⟨key, -, rfl⟩ := List.mem_map.mp hpart
    exact slash_not_mem_writeSegment key

theorem segments_write {keys : List Text} (hne : keys ≠ []) (hempty : [] ∉ keys) :
    segments (write keys) = .ok keys := by
  apply segments_eq_ok.mpr
  refine ⟨keys.map writeSegment, parts_write hne, ?_, ?_⟩
  · intro h
    obtain ⟨key, hkey, hnil⟩ := List.mem_map.mp h
    rw [writeSegment_eq_nil.mp hnil] at hkey
    exact hempty hkey
  · rw [List.map_map]
    have hid : readSegment ∘ writeSegment = id := funext readSegment_writeSegment
    rw [hid, List.map_id]

end Pointer

/-! ### Property paths -/

namespace Cypher

def pathTokens (keys : List Text) : List Token :=
  keys.flatMap fun key => [.symbol '.', .property key]

theorem tokens_properties (keys : List Text) :
    (keys.map Piece.property).flatMap Piece.tokens = pathTokens keys :=
  List.flatMap_map _ _ _

theorem lex_behind {first : Text} {ts : List Token} (h : lex first = some ts) (keys : List Text) :
    lex (propertyPath first keys) = some (ts ++ pathTokens keys) := by
  rw [text_properties, ← tokens_properties]
  apply Piece.lex_flatMap h
  intro p hp
  obtain ⟨key, -, rfl⟩ := List.mem_map.mp hp
  rfl

theorem filterMap_pathTokens (keys : List Text) :
    (pathTokens keys).filterMap Token.content? = keys := by
  induction keys with
  | nil => rfl
  | cons key keys ih =>
    have hcons : pathTokens (key :: keys) = .symbol '.' :: .property key :: pathTokens keys := rfl
    have hkey : (Token.property key).content? = some key := rfl
    rw [hcons, List.filterMap_cons_none rfl, List.filterMap_cons_some hkey, ih]

theorem propertyPath_injective (root : Text) : Function.Injective (propertyPath root) := by
  intro keys keys' h
  have hpath : propertyPath [] keys = propertyPath [] keys' := List.append_cancel_left h
  have hnil : lex [] = some [] := rfl
  have htokens := lex_behind hnil keys
  rw [hpath, lex_behind hnil keys', Option.some.injEq] at htokens
  have hkeys : pathTokens keys' = pathTokens keys := htokens
  rw [← filterMap_pathTokens keys, ← hkeys, filterMap_pathTokens]

end Cypher

open Cypher in
/-- Keys that are written as a pointer are what the pointer is cut into again. The two replacements
by which a part is decoded are one pass over it. And the path for the keys is read by the store as
the variable and one property for each key, the key itself, so that no two lists of keys have
the same path. -/
theorem pointers_address_one_path :
    (∀ keys, keys ≠ [] → [] ∉ keys → Pointer.segments (Pointer.write keys) = .ok keys) ∧
    (∀ s, Pointer.decodeSegment s = Pointer.readSegment s) ∧
    ∀ root, isIdentifier root = true →
      (∀ keys, lex (propertyPath root keys) = some (.word root :: pathTokens keys) ∧
        (pathTokens keys).filterMap Token.content? = keys) ∧
      Function.Injective (propertyPath root) := by
  refine ⟨fun keys hne hempty => Pointer.segments_write hne hempty, Pointer.decodeSegment_eq, ?_⟩
  intro root hroot
  refine ⟨fun keys => ⟨?_, filterMap_pathTokens keys⟩, propertyPath_injective root⟩
  exact lex_behind (lex_identifier hroot) keys

/-- Slashes, marks that look like escapes, and every character that a path gives a meaning. -/
def hostileKeys : List Text := ["a/b~1", "~0", "é.\x60$ \"", "t.x"]

theorem hostile_keys_are_addressed :
    hostileKeys ≠ [] ∧ [] ∉ hostileKeys ∧
    Pointer.write hostileKeys = "/a~1b~01/~00/é.\x60$ \"/t.x".toList ∧
    Pointer.segments (Pointer.write hostileKeys) = .ok hostileKeys ∧
    Pointer.decodeSegment "~01" = Pointer.readSegment "~01" ∧
    isIdentifier "t" = true ∧
    Cypher.lex (Cypher.propertyPath "t" hostileKeys) =
      some (.word "t" :: Cypher.pathTokens hostileKeys) ∧
    Cypher.propertyPath "t" ["t.x"] ≠ Cypher.propertyPath "t" ["t", "x"] := by
  obtain ⟨hwrite, hdecode, hpath⟩ := pointers_address_one_path
  have hroot : isIdentifier "t" = true := by decide
  have hne : hostileKeys ≠ [] := List.cons_ne_nil _ _
  have hempty : [] ∉ hostileKeys := by decide
  obtain ⟨hread, hinjective⟩ := hpath "t" hroot
  refine ⟨hne, hempty, by decide, hwrite hostileKeys hne hempty, hdecode "~01", hroot,
    (hread hostileKeys).1, fun heq => ?_⟩
  have hkeys := hinjective heq
  exact absurd hkeys (by decide)

end TwinGraph
