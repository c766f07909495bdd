import TwinGraph.Number.Basic
import TwinGraph.Text.Fields

/-! Document values. Objects keep the order of their fields, which shows when a value is
written; two objects with the same fields in another order are the same value nonetheless. -/
namespace TwinGraph

inductive Json where
  | null
  | bool (value : Bool)
  | number (value : Number)
  | string (value : Text)
  | array (items : List Json)
  | object (fields : List (Text × Json))
  deriving Repr, Inhabited

namespace Json

mutual

def decEq : (a b : Json) → Decidable (a = b)
  | null, null => .isTrue rfl
  | bool a, bool b => if h : a = b then .isTrue (h ▸ rfl) else .isFalse (by simp [h])
  | number a, number b => if h : a = b then .isTrue (h ▸ rfl) else .isFalse (by simp [h])
  | string a, string b => if h : a = b then .isTrue (h ▸ rfl) else .isFalse (by simp [h])
  | array a, array b =>
    match decEqItems a b with
    | .isTrue h => .isTrue (h ▸ rfl)
    | .isFalse h => .isFalse (by simp [h])
  | object a, object b =>
    match decEqFields a b with
    | .isTrue h => .isTrue (h ▸ rfl)
    | .isFalse h => .isFalse (by simp [h])
  | null, bool _ | null, number _ | null, string _ | null, array _ | null, object _
  | bool _, null | bool _, number _ | bool _, string _ | bool _, array _ | bool _, object _
  | number _, null | number _, bool _ | number _, string _ | number _, array _
  | number _, object _
  | string _, null | string _, bool _ | string _, number _ | string _, array _
  | string _, object _
  | array _, null | array _, bool _ | array _, number _ | array _, string _ | array _, object _
  | object _, null | object _, bool _ | object _, number _ | object _, string _
  | object _, array _ => .isFalse nofun

def decEqItems : (a b : List Json) → Decidable (a = b)
  | [], [] => .isTrue rfl
  | a :: as, b :: bs =>
    match a.decEq b, decEqItems as bs with
    | .isTrue h, .isTrue k => .isTrue (h ▸ k ▸ rfl)
    | .isFalse h, _ => .isFalse (by simp [h])
    | _, .isFalse h => .isFalse (by simp [h])
  | [], _ :: _ | _ :: _, [] => .isFalse nofun

def decEqFields : (a b : List (Text × Json)) → Decidable (a = b)
  | [], [] => .isTrue rfl
  | (m, a) :: as, (n, b) :: bs =>
    if hn : m = n then
      match a.decEq b, decEqFields as bs with
      | .isTrue h, .isTrue k => .isTrue (hn ▸ h ▸ k ▸ rfl)
      | .isFalse h, _ => .isFalse (by simp [h])
      | _, .isFalse h => .isFalse (by simp [h])
    else .isFalse (by simp [hn])
  | [], _ :: _ | _ :: _, [] => .isFalse nofun

end

instance : DecidableEq Json := decEq

mutual

/-- The same value: fields may come in another order, and the two float zeros are one. -/
def sameValue : Json → Json → Bool
  | null, null => true
  | bool a, bool b => a == b
  | number a, number b => a.sameValue b
  | string a, string b => a == b
  | array a, array b => sameItems a b
  | object a, object b => a.length == b.length && sameFields a b
  | _, _ => false

def sameItems : List Json → List Json → Bool
  | [], [] => true
  | a :: as, b :: bs => a.sameValue b && sameItems as bs
  | _, _ => false

def sameFields : List (Text × Json) → List (Text × Json) → Bool
  | [], _ => true
  | (name, a) :: rest, others =>
    (match Fields.find? name others with
      | some b => a.sameValue b
      | none => false) && sameFields rest others

end

def field? (name : Text) : Json → Option Json
  | object fields => Fields.find? name fields
  | _ => none

def string? : Json → Option Text
  | string s => some s
  | _ => none

def items? : Json → Option (List Json)
  | array items => some items
  | _ => none

def fields? : Json → Option (Fields Json)
  | object fields => some fields
  | _ => none

def bool? : Json → Option Bool
  | bool b => some b
  | _ => none

def signed64? : Json → Option Int
  | number n => n.signed64?
  | _ => none

def isObject : Json → Bool
  | object _ => true
  | _ => false

def isNumber : Json → Bool
  | number _ => true
  | _ => false

def stringField? (name : Text) (j : Json) : Option Text := j.field? name >>= string?

end Json
end TwinGraph
