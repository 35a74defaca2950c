import Depot.Digest.Sha256
import Depot.Text.Hex

/-!
# Digests

A digest names content by its SHA-256 hash, written as 64 lowercase hexadecimal
digits. Reading a digest accepts either case and writes it in lowercase; the
length is counted in bytes of the text. The first two digits of a digest name
its shard, the directory under which the content is kept.
-/

namespace Depot

/-- **Why a text is not a digest.** -/
inductive HashError where
  /-- The text does not have 64 bytes. -/
  | invalidLength (got : Nat)
  /-- A character is not a hexadecimal digit. -/
  | invalidHex (text : String)
  deriving DecidableEq, Repr

/-- The text of a hash error. -/
def HashError.message : HashError → String
  | .invalidLength got => "invalid digest length: expected 64, got " ++ toString got
  | .invalidHex text => "invalid hex in digest: " ++ text

/-- **A digest**: 64 lowercase hexadecimal digits. -/
structure Digest where
  text : String
  deriving DecidableEq, Repr, Inhabited

namespace Digest

/-- **Reads a digest**, in either case. -/
def parse (s : String) : Except HashError Digest :=
  if s.utf8ByteSize ≠ 64 then .error (.invalidLength s.utf8ByteSize)
  else if s.toList.all Text.Hex.isDigit then .ok ⟨String.ofList (s.toList.map Char.toLower)⟩
  else .error (.invalidHex s)

/-- **The digest of some bytes.** -/
def ofBytes (bs : List UInt8) : Digest := ⟨Text.Hex.encode (Sha256.hash bs)⟩

/-- Cuts a byte list into pieces of `n` bytes, the last one shorter; the fuel
bounds the number of pieces. -/
def pieces (n : Nat) : Nat → List UInt8 → List (List UInt8)
  | 0, _ => []
  | _, [] => []
  | fuel + 1, bs => bs.take n :: pieces n fuel (bs.drop n)

/-- The digest of some bytes and their number, fed to the hasher in the pieces
of 8192 bytes in which a stream hands them over. -/
def ofStream (bs : List UInt8) : Digest × Nat :=
  let h := (pieces 8192 (bs.length + 1) bs).foldl Sha256.Hasher.update Sha256.Hasher.new
  (⟨Text.Hex.encode h.finish⟩, h.count)

/-- The shard of a digest and the rest of it: its first two digits and the
other sixty-two. -/
def shard (d : Digest) : String × String :=
  (String.ofList (d.text.toList.take 2), String.ofList (d.text.toList.drop 2))

/-- Where the content of a digest is kept, under the root of a store. -/
def path (d : Digest) : String := d.shard.1 ++ "/" ++ d.shard.2 ++ "/content"

instance : Ord Digest := ⟨fun a b => compare a.text b.text⟩

end Digest

end Depot
