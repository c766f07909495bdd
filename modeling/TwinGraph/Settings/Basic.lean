import TwinGraph.Text.Name

/-! The settings of a client, and what is wrong with them. The name of the graph gets into
statements as it is, so it has to be a plain identifier. -/
namespace TwinGraph

structure Settings where
  graphName : Text
  batchSize : Nat
  deriving DecidableEq, Repr

structure Overrides where
  graphName : Option Text
  batchSize : Option Nat
  deriving DecidableEq, Repr

inductive SettingFault where
  | nameLength
  | nameForm
  | batchRange
  deriving DecidableEq, Repr

inductive NumeralFault where
  | empty
  | notDigit
  | tooLarge
  deriving DecidableEq, Repr

inductive SettingsError where
  | invalid (nameFaults batchFaults : List SettingFault)
  | numeral (name value : Text) (fault : NumeralFault)
  | malformedFile (content : Text)
  | unreadableFile
  deriving DecidableEq, Repr

namespace SettingFault

def code : SettingFault → Text
  | nameLength => "length"
  | nameForm => "graph_name"
  | batchRange => "range"

def message : SettingFault → Text
  | nameLength => "Graph name must be 1 to 63 characters"
  | nameForm => "Graph name must be a plain identifier"
  | batchRange => "Model resolution batch size must be between 1 and 1000"

end SettingFault

def NumeralFault.message : NumeralFault → Text
  | empty => "cannot parse integer from empty string"
  | notDigit => "invalid digit found in string"
  | tooLarge => "number too large to fit in target type"

def Settings.graphNameKey : Text := "graph_name"

def Settings.batchSizeKey : Text := "model_resolution_batch_size"

namespace SettingsError

def parseError (name value reason : Text) : Text :=
  Text.joined ["Parse error for ", name, ": ", value, " - ", reason]

def faultLines (key : Text) (faults : List SettingFault) : List Text :=
  faults.map fun fault => Text.joined [key, ": ", fault.message]

def message : SettingsError → Text
  | invalid nameFaults batchFaults =>
    Text.joined ["Validation error: ", Text.separated "\n"
      (faultLines Settings.graphNameKey nameFaults ++
        faultLines Settings.batchSizeKey batchFaults)]
  | numeral name value fault => parseError name value fault.message
  | malformedFile content => parseError "yaml_content" content "not a mapping of settings"
  | unreadableFile => parseError "yaml_file" "file read failed" "no such file"

end SettingsError

namespace Settings

def default : Settings := ⟨"digitaltwins", 100⟩

def nameFaults (s : Settings) : List SettingFault :=
  (if 1 ≤ s.graphName.length ∧ s.graphName.length ≤ 63 then [] else [.nameLength]) ++
    (if isIdentifier s.graphName then [] else [.nameForm])

def batchFaults (s : Settings) : List SettingFault :=
  if 1 ≤ s.batchSize ∧ s.batchSize ≤ 1000 then [] else [.batchRange]

abbrev Valid (s : Settings) : Prop := s.nameFaults = [] ∧ s.batchFaults = []

/-- All faults are told at once. -/
def check (s : Settings) : Except SettingsError Unit :=
  if s.Valid then .ok () else .error (.invalid s.nameFaults s.batchFaults)

def override (given : Overrides) (s : Settings) : Settings :=
  ⟨given.graphName.getD s.graphName, given.batchSize.getD s.batchSize⟩

/-- The settings with what is given on top of them, and the verdict on the result. -/
def merge (given : Overrides) (s : Settings) : Except SettingsError Unit × Settings :=
  ((s.override given).check, s.override given)

def ofOverrides (given : Overrides) : Except SettingsError Settings := do
  default |>.override given |>.check
  return default.override given

theorem default_valid : default.Valid := by decide

theorem isIdentifier_of_valid {s : Settings} (h : s.Valid) : isIdentifier s.graphName = true := by
  have hn := h.1
  unfold nameFaults at hn
  by_cases hi : isIdentifier s.graphName = true
  · exact hi
  · simp [hi] at hn

theorem batchSize_range_of_valid {s : Settings} (h : s.Valid) :
    1 ≤ s.batchSize ∧ s.batchSize ≤ 1000 := by
  have hfaults := h.2
  unfold batchFaults at hfaults
  split at hfaults
  · next hrange => exact hrange
  · cases hfaults

end Settings
end TwinGraph
