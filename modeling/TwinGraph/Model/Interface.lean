import TwinGraph.Model.Conformance
import TwinGraph.Text.Directory

/-! Interfaces: what a model declares, its own entries together with the inherited ones. -/
namespace TwinGraph

inductive ContentKind where
  | property (schema : Schema) (writable : Bool)
  | telemetry (schema : Schema)
  | relationship (target : Option Text)
  | component (interface : Text)
  | command

structure Content where
  name : Text
  kind : ContentKind

structure Interface where
  id : Text
  parents : List Text
  contents : Directory Content

namespace ContentKind

def word : ContentKind → Text
  | property _ _ => "Property"
  | telemetry _ => "Telemetry"
  | relationship _ => "Relationship"
  | component _ => "Component"
  | command => "Command"

def same : ContentKind → ContentKind → Bool
  | property s w, property t v => s.same t && w == v
  | telemetry s, telemetry t => s.same t
  | relationship a, relationship b => a == b
  | component a, component b => a == b
  | command, command => true
  | _, _ => false

end ContentKind

namespace Content

def same (a b : Content) : Bool := a.name == b.name && a.kind.same b.kind

def isProperty (c : Content) : Bool :=
  match c.kind with
  | .property _ _ => true
  | _ => false

/-- Why the value cannot be held; only properties hold values. -/
def violations (c : Content) (value : Json) : List Text :=
  match c.kind with
  | .property schema _ => schema.violations value
  | kind => [Text.joined ["a ", kind.word, " cannot hold a twin property value"]]

end Content
end TwinGraph
