import Depot.Resource.Basic

/-!
# The capability index

The index holds resources, at most one per identity, and files their
capabilities in *buckets* so that questions about them are answered by a
lookup. Each namespace has a catch-all bucket with every capability of the
namespace (`Depot.Index.enumerateAll`), and one bucket for each key of an
element of a primary value (`Depot.Index.findExact`): a list value is filed
once per distinct key of its elements. The namespaces in use are those that
have buckets (`Depot.Index.namespaces`, sorted).

Adding a resource files each of its capabilities in the buckets of its
namespace; removing one takes them out again, dropping every bucket it leaves
empty and a namespace that is left without buckets. An addition of an identity
already held is refused and changes nothing.

A capability is referred to by its resource and its position among the
resource's capabilities (`Depot.CapRef`); two references with the same
resource identity and position are the same, and a bucket holds each at most
once. Maps are lists of entries (`Depot.Entries`).
-/

namespace Depot

/-- **A reference to a capability**: the resource, the position of the
capability among its capabilities, and the capability itself. -/
structure CapRef where
  resource : Resource
  position : Nat
  capability : Capability
  deriving Inhabited

namespace CapRef

/-- What tells two references apart: the identity of the resource and the
position. -/
def key (c : CapRef) : ResourceId × Nat := (c.resource.id, c.position)

/-- Adds a reference to a set of references unless one with its key is there. -/
def insert (s : List CapRef) (c : CapRef) : List CapRef :=
  if s.any fun x => decide (x.key = c.key) then s else s ++ [c]

/-- The references of either set, those of the first in their order and the
others after them. -/
def union (xs ys : List CapRef) : List CapRef := ys.foldl insert xs

end CapRef

/-- The references to the capabilities of a resource, in order. -/
def Resource.capRefs (r : Resource) : List CapRef :=
  (List.range r.capabilities.length).zip r.capabilities |>.map fun (i, c) => ⟨r, i, c⟩

/-- **A finite map** from keys to values, kept as a list of entries; a key that
is not there is added at the end. -/
structure Entries (κ α : Type) where
  entries : List (κ × α)
  deriving Inhabited

namespace Entries

variable {κ α : Type} [DecidableEq κ]

/-- The map without entries. -/
def empty : Entries κ α := ⟨[]⟩

/-- The value of a key in a list of entries. -/
def find : List (κ × α) → κ → Option α
  | [], _ => none
  | (k', v) :: es, k => if k' = k then some v else find es k

/-- The value of a key. -/
def lookup (m : Entries κ α) (k : κ) : Option α := find m.entries k

/-- Changes the value of a key in a list of entries, starting from a default
value added at the end when the key is not there. -/
def alter (k : κ) (d : α) (f : α → α) : List (κ × α) → List (κ × α)
  | [] => [(k, f d)]
  | (k', v) :: es => if k' = k then (k', f v) :: es else (k', v) :: alter k d f es

/-- **Changes the value of a key** by a function, starting from a default value
when the key is not there. -/
def update (m : Entries κ α) (k : κ) (d : α) (f : α → α) : Entries κ α :=
  ⟨alter k d f m.entries⟩

/-- **Sets the value of a key.** -/
def set (m : Entries κ α) (k : κ) (v : α) : Entries κ α := m.update k v fun _ => v

/-- **Removes a key** and its value. -/
def erase (m : Entries κ α) (k : κ) : Entries κ α := ⟨m.entries.filter fun e => e.1 ≠ k⟩

/-- The keys, in the order of the entries. -/
def keys (m : Entries κ α) : List κ := m.entries.map (·.1)

/-- Whether the map has no entries. -/
def isEmpty (m : Entries κ α) : Bool := m.entries.isEmpty

end Entries

/-- **The key of a bucket** within a namespace: the catch-all, or the key of an
element of primary values. -/
inductive BucketKey where
  | any
  | value (key : String)
  deriving DecidableEq, Repr

/-- **The buckets a capability is filed in**: the catch-all, then one for each
distinct key of the elements of its primary value, in order. -/
def Capability.bucketKeys (c : Capability) : List BucketKey :=
  let elements := match c.primary with
    | some v => v.elements
    | none => []
  elements.foldl (fun keys e =>
    if keys.contains (.value e.key) then keys else keys ++ [.value e.key]) [.any]

/-- **Why a resource cannot be added**: one with its identity is already
there. -/
structure DuplicateResource where
  id : ResourceId
  deriving DecidableEq, Repr

/-- The text of the error. -/
def DuplicateResource.message (e : DuplicateResource) : String :=
  "Duplicate resource: " ++ e.id.render ++ " is already in the index"

/-- The buckets of a namespace, by key. -/
abbrev Buckets := Entries BucketKey (List CapRef)

/-- **The index**: the resources it holds, in the order they were added, and
the buckets of each namespace in use. -/
structure Index where
  resources : List Resource
  buckets : Entries String Buckets
  deriving Inhabited

namespace Index

/-- The empty index. -/
def empty : Index := ⟨[], Entries.empty⟩

/-- Whether a resource with the identity is held. -/
def contains (idx : Index) (id : ResourceId) : Bool := idx.resources.any (·.id == id)

/-- The resource with the identity. -/
def get? (idx : Index) (id : ResourceId) : Option Resource := idx.resources.find? (·.id == id)

/-- The number of resources held. -/
def size (idx : Index) : Nat := idx.resources.length

/-- **Files a reference** in the buckets of its namespace: the catch-all and
the bucket of each key of its primary value, each created when missing. -/
def file (m : Entries String Buckets) (c : CapRef) : Entries String Buckets :=
  m.update c.capability.ns Entries.empty fun bs =>
    c.capability.bucketKeys.foldl (fun bs key => bs.update key [] (CapRef.insert · c)) bs

/-- Takes a reference out of one bucket of a namespace, dropping the bucket if
it is left empty. -/
def unfileKey (c : CapRef) (bs : Buckets) (key : BucketKey) : Buckets :=
  match bs.lookup key with
  | none => bs
  | some bucket =>
    let bucket := bucket.filter fun x => x.key ≠ c.key
    if bucket.isEmpty then bs.erase key else bs.set key bucket

/-- **Takes a reference out** of the buckets of its namespace, dropping the
buckets it leaves empty, and the namespace when no bucket is left. -/
def unfile (m : Entries String Buckets) (c : CapRef) : Entries String Buckets :=
  match m.lookup c.capability.ns with
  | none => m
  | some bs =>
    let bs := c.capability.bucketKeys.foldl (unfileKey c) bs
    if bs.isEmpty then m.erase c.capability.ns else m.set c.capability.ns bs

/-- **Adds a resource** and files its capabilities, unless one with its
identity is held. -/
def add (idx : Index) (r : Resource) : Except DuplicateResource Index :=
  if idx.contains r.id then .error ⟨r.id⟩
  else .ok ⟨idx.resources ++ [r], r.capRefs.foldl file idx.buckets⟩

/-- **Removes the resource with the identity** and takes the capabilities of
the resource held out of the buckets, and tells whether there was one. -/
def remove (idx : Index) (id : ResourceId) : Index × Bool :=
  match idx.get? id with
  | none => (idx, false)
  | some held => (⟨idx.resources.filter (·.id != id), held.capRefs.foldl unfile idx.buckets⟩, true)

/-- The bucket of a key in a namespace; a missing one is empty. -/
def bucket (idx : Index) (ns : String) (key : BucketKey) : List CapRef :=
  ((idx.buckets.lookup ns).bind (·.lookup key)).getD []

/-- **Every capability of a namespace**: its catch-all bucket. -/
def enumerateAll (idx : Index) (ns : String) : List CapRef := idx.bucket ns .any

/-- **The capabilities of a namespace whose primary value has an element with
the key**: the bucket of the key. -/
def findExact (idx : Index) (ns k : String) : List CapRef := idx.bucket ns (.value k)

/-- Inserts a text into a sorted list of texts without repeats. -/
def insertSorted (s : String) : List String → List String
  | [] => [s]
  | t :: ts => if s = t then t :: ts else if s < t then s :: t :: ts else t :: insertSorted s ts

/-- **The namespaces in use**, sorted. -/
def namespaces (idx : Index) : List String :=
  idx.buckets.keys.foldl (fun acc ns => insertSorted ns acc) []

/-- The references to every capability held. -/
def capRefs (idx : Index) : List CapRef := idx.resources.flatMap Resource.capRefs

end Index

/-- **An operation on an index**: adding a resource, or removing the resource
of an identity. -/
inductive IndexOp where
  | add (r : Resource)
  | remove (id : ResourceId)

namespace Index

/-- Applies an operation; an addition that is refused leaves the index as it
is. -/
def apply (idx : Index) : IndexOp → Index
  | .add r => match idx.add r with
    | .ok idx' => idx'
    | .error _ => idx
  | .remove id => (idx.remove id).1

/-- **The index after a sequence of operations**, from the empty one. -/
def run (ops : List IndexOp) : Index := ops.foldl apply empty

end Index

end Depot
