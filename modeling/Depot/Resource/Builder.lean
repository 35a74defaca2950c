import Depot.Resource.Basic

/-!
# Assembling resources

A draft collects the offers, requirements and content of a resource;
`Depot.Draft.build` checks it and gives the resource. Exactly one offer must be
in the identity namespace. Its `identity` attribute is the name, a non-empty
text. Its `version` attribute is absent (the version `0.0.0`), a version, or a
text that reads as one; the built resource holds the version itself there. Its
`type` attribute is the type when it is a text, and `unknown` otherwise.
Content adds a last capability in the content namespace with the digest, the
size as a long, and the media type if given; the size must fit a long.

The checks run in that order, and the first that fails gives the error.
-/

namespace Depot

/-- **What is wrong with the identity of a draft.** -/
inductive IdentityFault where
  /-- The name is missing or empty. -/
  | missingName
  /-- The name is not a text; the type spec found. -/
  | nameNotText (spec : String)
  /-- The version is a text that does not read as a version. -/
  | badVersion (name : String) (e : VersionError)
  /-- The version is neither a version nor a text; the type spec found. -/
  | versionNotVersion (spec : String)
  /-- The content size does not fit a long. -/
  | sizeOutOfRange (size : Nat)
  deriving DecidableEq, Repr

/-- The text of an identity fault. -/
def IdentityFault.message : IdentityFault → String
  | .missingName => "missing identity name"
  | .nameNotText spec => "identity name must be a String, found " ++ spec
  | .badVersion name e => "bad version for " ++ name ++ ": " ++ e.message
  | .versionNotVersion spec => "version must be a Version, found " ++ spec
  | .sizeOutOfRange size => "content size " ++ toString size ++ " out of range"

/-- **Why a draft is not a resource.** -/
inductive ResourceError where
  | missingIdentity
  | multipleIdentities (count : Nat)
  | invalidIdentity (fault : IdentityFault)
  deriving DecidableEq, Repr

/-- The text of a resource error. -/
def ResourceError.message : ResourceError → String
  | .missingIdentity => "Resource has no identity capability"
  | .multipleIdentities n =>
    "Resource has " ++ toString n ++ " identity capabilities, expected exactly one"
  | .invalidIdentity f => "Invalid identity capability: " ++ f.message

/-- **A draft of a resource**: offers, requirements and content, in the order
given. -/
structure Draft where
  offers : List Offer
  requirements : List Requirement
  content : Option ContentInfo
  deriving Inhabited

namespace Draft

/-- The empty draft. -/
def empty : Draft := ⟨[], [], none⟩

/-- Adds an offer. -/
def offer (d : Draft) (o : Offer) : Draft := { d with offers := d.offers ++ [o] }

/-- Adds the identity offer of a name, a version and a type. -/
def identity (d : Draft) (name : String) (version : Version) (typeName : String) : Draft :=
  d.offer ⟨identityNamespace,
    Table.ofList [("identity", Value.ofString name), ("version", .scalar (.version version)),
      ("type", Value.ofString typeName)], Table.empty⟩

/-- Adds a requirement. -/
def require (d : Draft) (r : Requirement) : Draft :=
  { d with requirements := d.requirements ++ [r] }

/-- Sets the content. -/
def withContent (d : Draft) (c : ContentInfo) : Draft := { d with content := some c }

/-- The name in an identity offer. -/
def identityName (o : Offer) : Except ResourceError String :=
  match o.attributes.get? "identity" with
  | some (.scalar (.string n)) =>
    if n.isEmpty then .error (.invalidIdentity .missingName) else .ok n
  | none => .error (.invalidIdentity .missingName)
  | some v => .error (.invalidIdentity (.nameNotText v.typeSpec.render))

/-- The version in an identity offer. -/
def identityVersion (name : String) (o : Offer) : Except ResourceError Version :=
  match o.attributes.get? "version" with
  | none => .ok Version.zero
  | some (.scalar (.version v)) => .ok v
  | some (.scalar (.string s)) => match Version.parse s with
    | .ok v => .ok v
    | .error e => .error (.invalidIdentity (.badVersion name e))
  | some v => .error (.invalidIdentity (.versionNotVersion v.typeSpec.render))

/-- The type in an identity offer. -/
def identityType (o : Offer) : String :=
  match o.attributes.get? "type" with
  | some (.scalar (.string t)) => t
  | _ => "unknown"

/-- The content offer of content whose size fits a long. -/
def contentOffer (c : ContentInfo) : Offer :=
  let base := [("content", Value.ofString c.digest.text), ("size", .scalar (.long c.size))]
  let mime := match c.mime with
    | some m => [("mime", Value.ofString m)]
    | none => []
  ⟨contentNamespace, Table.ofList (base ++ mime), Table.empty⟩

/-- The offers of the resource: the identity offer with its version set, and
the content offer last. -/
def finalOffers (d : Draft) (version : Version) : Except ResourceError (List Offer) :=
  let offers := d.offers.map fun o =>
    if o.ns == identityNamespace then
      { o with attributes := o.attributes.insert "version" (.scalar (.version version)) }
    else o
  match d.content with
  | none => .ok offers
  | some c =>
    if c.size ≤ Numeral.Long.maxValue.toNat then .ok (offers ++ [contentOffer c])
    else .error (.invalidIdentity (.sizeOutOfRange c.size))

/-- **Builds the resource** of a draft. -/
def build (d : Draft) : Except ResourceError Resource := do
  let identity ← match d.offers.filter (·.ns == identityNamespace) with
    | [] => .error .missingIdentity
    | [o] => .ok o
    | many => .error (.multipleIdentities many.length)
  let name ← identityName identity
  let version ← identityVersion name identity
  let offers ← d.finalOffers version
  let id : ResourceId := ⟨name, version⟩
  pure ⟨id, identityType identity, offers.map fun o => { o with resource := id },
    d.requirements, d.content⟩

end Draft

end Depot
