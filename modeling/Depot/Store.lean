import Depot.Digest.Basic
import Depot.Table

/-!
# The content store

The store keeps blobs of bytes under the digests that name them. Putting bytes
stores them under their digest unless something is stored there already, in
which case nothing changes; the stream variant also reports the size and
whether it stored anything. Reading a digest gives its bytes, and with
verification on it refuses bytes whose digest is not the one asked for, as
after an overwrite (`Depot.Store.overwrite`) of a stored blob.

`Depot.StoreOp` names these calls, the overwrite among them, and
`Depot.Store.run` performs a sequence of them on an empty store.
-/

namespace Depot

/-- **Why content cannot be read.** -/
inductive StoreError where
  /-- Nothing is stored under the digest. -/
  | notFound (d : Digest)
  /-- The bytes stored under a digest have another digest. -/
  | mismatch (expected actual : Digest)
  deriving DecidableEq, Repr

/-- The text of a store error. -/
def StoreError.message : StoreError → String
  | .notFound d => "Content not found in store: " ++ d.text
  | .mismatch e a => "Digest mismatch: expected " ++ e.text ++ ", got " ++ a.text

/-- **A content store**: blobs by digest text, and whether reads are
verified. -/
structure Store where
  blobs : Table (List UInt8)
  verify : Bool
  deriving Inhabited

namespace Store

/-- The empty store. -/
def empty (verify : Bool) : Store := ⟨Table.empty, verify⟩

/-- Whether something is stored under a digest. -/
def has (s : Store) (d : Digest) : Bool := s.blobs.contains d.text

/-- **Stores bytes** under their digest, unless that place is taken. -/
def put (s : Store) (bs : List UInt8) : Store × Digest :=
  let d := Digest.ofBytes bs
  (if s.has d then s else { s with blobs := s.blobs.insert d.text bs }, d)

/-- **Stores streamed bytes** under their digest, unless that place is taken:
the digest, the size, and whether the bytes were stored. -/
def putStream (s : Store) (bs : List UInt8) : Store × Digest × Nat × Bool :=
  let (d, size) := Digest.ofStream bs
  if s.has d then (s, d, size, false)
  else ({ s with blobs := s.blobs.insert d.text bs }, d, size, true)

/-- **Reads the bytes under a digest**, verified when the store verifies. -/
def get (s : Store) (d : Digest) : Except StoreError (List UInt8) :=
  match s.blobs.get? d.text with
  | none => .error (.notFound d)
  | some bs =>
    if s.verify then
      let actual := Digest.ofBytes bs
      if actual = d then .ok bs else .error (.mismatch d actual)
    else .ok bs

/-- **Removes the blob under a digest**, and tells whether there was one. -/
def remove (s : Store) (d : Digest) : Store × Bool :=
  ({ s with blobs := s.blobs.erase d.text }, s.has d)

/-- Writes bytes under a digest whatever they are, replacing what was there. -/
def overwrite (s : Store) (d : Digest) (bs : List UInt8) : Store :=
  { s with blobs := s.blobs.insert d.text bs }

/-- Inserts a text into a sorted list of texts. -/
def insertText (t : String) : List String → List String
  | [] => [t]
  | u :: us => if t < u then t :: u :: us else u :: insertText t us

/-- **The digests stored**, in increasing order. -/
def digests (s : Store) : List Digest :=
  (s.blobs.keys.foldl (fun acc t => insertText t acc) []).map Digest.mk

end Store

/-- **A call on a content store**: putting bytes, streaming them in, removing
the blob of a digest, or writing bytes where the blob of a digest is kept from
outside the store, as a damaged disk or a planted file does. -/
inductive StoreOp where
  | put (bytes : List UInt8)
  | putStream (bytes : List UInt8)
  | remove (d : Digest)
  | overwrite (d : Digest) (bytes : List UInt8)

namespace Store

/-- Performs a call on a store. -/
def perform (s : Store) : StoreOp → Store
  | .put bs => (s.put bs).1
  | .putStream bs => (s.putStream bs).1
  | .remove d => (s.remove d).1
  | .overwrite d bs => s.overwrite d bs

/-- **The store after a sequence of calls**, from an empty one that verifies
its reads or not. -/
def run (verify : Bool) (ops : List StoreOp) : Store := ops.foldl perform (empty verify)

end Store

end Depot
