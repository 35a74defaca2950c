import Depot.Text.Blank

/-!
# Versions

A version is written `major[.minor[.micro[.qualifier]]]`: up to three numbers
of ASCII digits, each below `2 ^ 64`, and a qualifier of ASCII letters, digits,
`_` and `-`. Missing numbers are zero and a missing qualifier is empty, so the
canonical text `Depot.Version.render` always shows three numbers.

Versions are ordered by the numeric triple first and by the qualifier after,
character by character in code point order (`Depot.Version.compare`).

Reading (`Depot.Version.parse`) trims blanks, cuts the text at its first three
dots, and reports the first fault from the left: a bad number, then a dangling
dot, then a bad qualifier (a qualifier holding a further dot has too many
components).
-/

namespace Depot

/-- **Why a text is not a version or a range.** Each cause keeps the trimmed
text it was read from. -/
inductive VersionError where
  /-- The text is blank. -/
  | empty
  /-- A number is empty, holds a character other than an ASCII digit, or is
  not below `2 ^ 64`. -/
  | invalidNumber (input component : String)
  /-- The qualifier is empty after a dot, or holds a character other than an
  ASCII letter, digit, `_` or `-`. -/
  | invalidQualifier (input qualifier : String)
  /-- The qualifier holds a dot. -/
  | tooManyComponents (input : String)
  /-- A range text is not an interval of two versions in order. -/
  | invalidRange (input : String)
  deriving DecidableEq, Repr

/-- The text of a version error. -/
def VersionError.message : VersionError → String
  | .empty => "Empty version string"
  | .invalidNumber input component =>
    "Invalid numeric component '" ++ component ++ "' in version '" ++ input ++ "'"
  | .invalidQualifier input qualifier =>
    "Invalid qualifier '" ++ qualifier ++ "' in version '" ++ input ++ "'"
  | .tooManyComponents input => "Too many components in version '" ++ input ++ "'"
  | .invalidRange input => "Invalid version range '" ++ input ++ "'"

/-- **A version**: three numbers and a qualifier. The reader only builds
numbers below `2 ^ 64` and qualifiers of ASCII letters, digits, `_` and `-`. -/
structure Version where
  major : Nat
  minor : Nat
  micro : Nat
  qualifier : String
  deriving DecidableEq, Repr, Inhabited

namespace Version

/-- The least version, `0.0.0`. -/
def zero : Version := ⟨0, 0, 0, ""⟩

/-- Versions compare by major, minor and micro number, then by qualifier. -/
protected def compare (a b : Version) : Ordering :=
  (Ord.compare a.major b.major).then <|
    (Ord.compare a.minor b.minor).then <|
      (Ord.compare a.micro b.micro).then (Ord.compare a.qualifier b.qualifier)

instance : Ord Version := ⟨Version.compare⟩

/-- The canonical text: three numbers, and the qualifier after a fourth dot
when it is not empty. -/
def render (v : Version) : String :=
  toString v.major ++ "." ++ toString v.minor ++ "." ++ toString v.micro ++
    (if v.qualifier.isEmpty then "" else "." ++ v.qualifier)

/-! ### Reading -/

/-- Cuts a character list at its first `n` dots; the last part keeps any
further dots. -/
def splitDots : Nat → List Char → List (List Char)
  | 0, cs => [cs]
  | n + 1, cs =>
    match cs.dropWhile (· ≠ '.') with
    | [] => [cs]
    | _ :: rest => cs.takeWhile (· ≠ '.') :: splitDots n rest

/-- The value of a list of decimal digits. -/
def digitsValue (cs : List Char) : Nat :=
  cs.foldl (fun acc c => acc * 10 + (c.toNat - '0'.toNat)) 0

/-- A number of a version: a non-empty run of ASCII digits below `2 ^ 64`. -/
def readNumber (input : String) (part : List Char) : Except VersionError Nat :=
  if part ≠ [] ∧ part.all Char.isDigit ∧ digitsValue part < Nat.pow 2 64 then
    .ok (digitsValue part)
  else
    .error (.invalidNumber input (String.ofList part))

/-- A character that may stand in a qualifier. -/
def isQualifierChar (c : Char) : Bool := c.isAlphanum || c == '_' || c == '-'

/-- The qualifier after the third dot: non-empty, of qualifier characters. -/
def readQualifier (input : String) (q : List Char) : Except VersionError String :=
  if q = [] then .error (.invalidQualifier input "")
  else if q.all isQualifierChar then .ok (String.ofList q)
  else if '.' ∈ q then .error (.tooManyComponents input)
  else .error (.invalidQualifier input (String.ofList q))

/-- Reads the parts of a trimmed, non-empty version text, numbers first. -/
def ofParts (input : String) : List (List Char) → Except VersionError Version
  | [a] => do
    let x ← readNumber input a
    pure ⟨x, 0, 0, ""⟩
  | [a, b] => do
    let x ← readNumber input a
    let y ← readNumber input b
    pure ⟨x, y, 0, ""⟩
  | [a, b, c] => do
    let x ← readNumber input a
    let y ← readNumber input b
    let z ← readNumber input c
    pure ⟨x, y, z, ""⟩
  | a :: b :: c :: q :: _ => do
    let x ← readNumber input a
    let y ← readNumber input b
    let z ← readNumber input c
    let w ← readQualifier input q
    pure ⟨x, y, z, w⟩
  | [] => .error .empty

/-- **Reads a version** from a text, ignoring blanks at both ends. -/
def parse (s : String) : Except VersionError Version :=
  let cs := Text.trimList s.toList
  if cs = [] then .error .empty
  else ofParts (String.ofList cs) (splitDots 3 cs)

example : splitDots 3 "1.2.3.4.5".toList = ["1".toList, "2".toList, "3".toList, "4.5".toList] := by
  decide

end Version

end Depot
