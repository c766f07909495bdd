import TwinGraph.Settings.Environment
import TwinGraph.Yaml.Document

/-! Settings from a file. Keys that are no settings are ignored; a setting comes once at most,
and one that is left out keeps its default. -/
namespace TwinGraph.Settings

def ofDigits? (base : Nat) (digits : Text) : Option Nat := do
  let values ← digits.mapM hexValue
  if values.isEmpty || values.any (base ≤ ·) then none
  let value := values.foldl (fun value digit => value * base + digit) 0
  if value ≤ maxNumber then some value else none

/-- The number of a plain text: decimal without leading zeros, or in another base behind its
mark, all perhaps behind a plus sign. -/
def ofPlain? (s : Text) : Option Nat :=
  match (Text.after? ['+'] s).getD s with
  | ['0'] => some 0
  | '0' :: 'x' :: digits => ofDigits? 16 digits
  | '0' :: 'o' :: digits => ofDigits? 8 digits
  | '0' :: 'b' :: digits => ofDigits? 2 digits
  | '0' :: _ => none
  | digits => ofDigits? 10 digits

/-- The number of a scalar. In quotes a text is no number. -/
def ofScalar? (s : Yaml.Scalar) : Option Nat :=
  if s.style = .plain ∨ (s.style = .literal ∧ s.tag = some Yaml.integerTag) then ofPlain? s.text
  else none

def single? (key : Text) (entries : List (Text × Yaml.Node)) : Option (Option Yaml.Node) :=
  match entries.filter (·.1 == key) with
  | [] => some none
  | [(_, value)] => some (some value)
  | _ => none

def readSetting (read : Yaml.Scalar → Option α) : Option Yaml.Node → Option (Option α)
  | none => some none
  | some value => do return some (← read (← value.scalar?))

def ofEntries? (entries : List (Text × Yaml.Node)) : Option Overrides := do
  let graphName ← readSetting (fun s => some s.text) (← single? graphNameKey entries)
  let batchSize ← readSetting ofScalar? (← single? batchSizeKey entries)
  return ⟨graphName, batchSize⟩

/-- The overrides that a document gives. Nothing at all is as good as a mapping without entries. -/
def ofDocument? : Option Yaml.Node → Option Overrides
  | none => some ⟨none, none⟩
  | some (.mapping entries) => do
    ofEntries? (← entries.mapM fun (key, value) => do return ((← key.scalar?).text, value))
  | some (.scalar s) => if s.style = .plain ∧ s.text = [] then some ⟨none, none⟩ else none
  | some _ => none

/-- The settings of a file with the given content; no content means no file. -/
def ofFile : Option Text → Except SettingsError Settings
  | none => .error .unreadableFile
  | some content =>
    match (Yaml.document? content).bind ofDocument? with
    | none => .error (.malformedFile content)
    | some given => ofOverrides given

end TwinGraph.Settings
