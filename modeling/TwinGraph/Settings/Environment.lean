import TwinGraph.Settings.Basic

/-! Settings from the environment. A variable that is not set leaves the default. -/
namespace TwinGraph.Settings

def maxNumber : Nat := 0xffffffffffffffff

/-- Reads digits from left to right, so of several faults the first one counts. -/
def readDigits (value : Nat) : Text → Except NumeralFault Nat
  | [] => .ok value
  | c :: s =>
    if !c.isDigit then .error .notDigit
    else
      let value := value * 10 + (c.toNat - '0'.toNat)
      if maxNumber < value then .error .tooLarge else readDigits value s

def readNumber : Text → Except NumeralFault Nat
  | [] => .error .empty
  | ['+'] => .error .notDigit
  | '+' :: s => readDigits 0 s
  | s => readDigits 0 s

structure Environment where
  graphName : Option Text
  batchSize : Option Text
  deriving DecidableEq, Repr

def batchSizeVariable : Text := "AGE_MODEL_RESOLUTION_BATCH_SIZE"

def graphNameVariable : Text := "AGE_GRAPH_NAME"

def readBatchSize : Option Text → Except SettingsError Nat
  | none => .ok default.batchSize
  | some s =>
    match readNumber s with
    | .ok n => .ok n
    | .error fault => .error (.numeral batchSizeVariable s fault)

def ofEnvironment (env : Environment) : Except SettingsError Settings := do
  let settings : Settings := ⟨env.graphName.getD default.graphName, ← readBatchSize env.batchSize⟩
  settings.check
  return settings

end TwinGraph.Settings
