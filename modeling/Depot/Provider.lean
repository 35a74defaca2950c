import Depot.Index
import Depot.Filter.Parser
import Depot.Filter.Match

/-!
# Providers of a requirement

A capability *provides* for a requirement when it is in the requirement's
namespace and

* the requirement's filter accepts the capability's attributes, when it has a
  filter;
* otherwise, when the requirement has a primary value, the capability has one
  too and the two share the key of an element: keys are canonical texts, so a
  text `1` meets a long `1` and a version `2.1` meets a text `2.1.0`;
* otherwise always.

`Depot.Index.providers` looks the providers up in an index. A requirement with
a primary value and no filter is looked up by the keys of its elements; every
other one by the whole namespace. A filter that does not read is the error.
-/

namespace Depot

/-- **A requirement with its filter read.** -/
structure Compiled where
  requirement : Requirement
  filter : Option Filter

namespace Requirement

/-- Reads the filter of a requirement. -/
def compile (r : Requirement) : Except FilterError Compiled :=
  match r.filter with
  | none => .ok ⟨r, none⟩
  | some text => match Filter.parse text with
    | .ok f => .ok ⟨r, some f⟩
    | .error e => .error e

end Requirement

/-- The keys of the elements of a value. -/
def Value.keys (v : Value) : List String := v.elements.map Scalar.key

namespace Compiled

/-- **Whether a capability provides for the requirement.** -/
def accepts (c : Compiled) (cap : Capability) : Bool :=
  if cap.ns != c.requirement.ns then false
  else match c.filter with
    | some f => f.accepts cap.attributes
    | none => match c.requirement.primary, cap.primary with
      | none, _ => true
      | some _, none => false
      | some wanted, some offered => wanted.keys.any fun k => offered.keys.contains k

end Compiled

/-- **Whether a capability provides for a requirement**, once its filter is
read. -/
def Requirement.accepts (r : Requirement) (cap : Capability) : Except FilterError Bool :=
  (fun c => c.accepts cap) <$> r.compile

namespace Index

/-- The capabilities worth testing for a requirement: those with the keys of
its primary value when it has one and no filter, else the whole namespace. -/
def candidates (idx : Index) (c : Compiled) : List CapRef :=
  match c.filter, c.requirement.primary with
  | none, some wanted =>
    wanted.keys.foldl (fun acc k => CapRef.union acc (idx.findExact c.requirement.ns k)) []
  | _, _ => idx.enumerateAll c.requirement.ns

/-- **The capabilities that provide for a requirement.** -/
def providers (idx : Index) (r : Requirement) : Except FilterError (List CapRef) := do
  let c ← r.compile
  pure ((idx.candidates c).filter fun ref => c.accepts ref.capability)

end Index

end Depot
