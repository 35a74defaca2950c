import Depot.Attribute.Basic
import Depot.Digest.Basic
import Depot.Filter.Basic
import Depot.Version.Range
import Depot.Table

/-!
# Resources, capabilities and requirements

A resource is named by its identity, a name and a version, and offers
*capabilities*: each has a namespace, typed attributes and text directives. Its
*requirements* ask for capabilities of other resources: a namespace, typed
attributes and directives, among which the `filter` directive selects
capabilities by their attributes. A resource may also carry content, named by
its digest.

The attribute named like the namespace is the *primary value* of a capability
or requirement: in the `identity` namespace it is the resource's name.
-/

namespace Depot

/-- The namespace of identity capabilities. -/
def identityNamespace : String := "identity"

/-- The namespace of content capabilities. -/
def contentNamespace : String := "content"

/-- **The identity of a resource**: a name and a version. -/
structure ResourceId where
  name : String
  version : Version
  deriving DecidableEq, Repr, Inhabited

/-- The text of an identity, `name/version`. -/
def ResourceId.render (id : ResourceId) : String := id.name ++ "/" ++ id.version.render

/-- **Content of a resource**: its digest, its size in bytes and an optional
media type. -/
structure ContentInfo where
  digest : Digest
  size : Nat
  mime : Option String
  deriving DecidableEq, Repr

/-- **What a capability offers**: a namespace, attributes and directives. -/
structure Offer where
  /-- The namespace. -/
  ns : String
  attributes : Table Value
  directives : Table String
  deriving Inhabited

/-- The attribute named like the namespace. -/
def Offer.primary (o : Offer) : Option Value := o.attributes.get? o.ns

/-- **A capability**: an offer of a resource. -/
structure Capability extends Offer where
  resource : ResourceId
  deriving Inhabited

/-- **A requirement**: a namespace, attributes and directives. -/
structure Requirement where
  /-- The namespace. -/
  ns : String
  attributes : Table Value
  directives : Table String
  deriving Inhabited

namespace Requirement

/-- The requirement of any capability in a namespace. -/
def wildcard (ns : String) : Requirement := ⟨ns, Table.empty, Table.empty⟩

/-- The `filter` directive. -/
def filter (r : Requirement) : Option String := r.directives.get? "filter"

/-- The requirement with its `filter` directive set. -/
def withFilter (r : Requirement) (f : String) : Requirement :=
  { r with directives := r.directives.insert "filter" f }

/-- The attribute named like the namespace. -/
def primary (r : Requirement) : Option Value := r.attributes.get? r.ns

/-- The text of a requirement: `namespace:filter`, or `namespace:*` without a
filter. -/
def render (r : Requirement) : String :=
  r.ns ++ ":" ++ (r.filter.getD "*")

/-- The filter selecting the identity capability of a name, and of a version in
a range if one is given. -/
def identityFilter (name : String) (range : Option VersionRange) : String :=
  let byName := "(" ++ identityNamespace ++ "=" ++ Filter.escape name ++ ")"
  match range with
  | none => byName
  | some r => "(&" ++ byName ++ r.toFilter "version" ++ ")"

/-- **The requirement of a resource by name**, and by a range of versions if
one is given. -/
def identity (name : String) (range : Option VersionRange) : Requirement :=
  (wildcard identityNamespace).withFilter (identityFilter name range)

end Requirement

/-- **A resource**: its identity, type, capabilities, requirements and
content. -/
structure Resource where
  id : ResourceId
  typeName : String
  capabilities : List Capability
  requirements : List Requirement
  content : Option ContentInfo
  deriving Inhabited

namespace Resource

/-- The text of a resource, `name/version (type)`. -/
def render (r : Resource) : String := r.id.render ++ " (" ++ r.typeName ++ ")"

/-- The first capability in the identity namespace. -/
def identity (r : Resource) : Option Capability :=
  r.capabilities.find? (·.ns == identityNamespace)

end Resource

end Depot
