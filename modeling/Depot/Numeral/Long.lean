/-!
# Signed 64-bit integers as text

A *long* is an integer from `-2 ^ 63` to `2 ^ 63 - 1`. Its text is an optional
sign and ASCII digits, nothing else: no blanks, no separators. Reading scans
from the left and reports the first fault it meets: a character that is not a
digit, or a prefix whose value already leaves the range.
-/

namespace Depot.Numeral

/-- **Why a text is not a long.** -/
inductive LongError where
  /-- The text is empty. -/
  | empty
  /-- A sign stands alone, or a character is not an ASCII digit. -/
  | invalidDigit
  /-- The value is above `2 ^ 63 - 1`. -/
  | tooLarge
  /-- The value is below `-2 ^ 63`. -/
  | tooSmall
  deriving DecidableEq, Repr

/-- The text of a long error. -/
def LongError.message : LongError → String
  | .empty => "cannot parse integer from empty string"
  | .invalidDigit => "invalid digit found in string"
  | .tooLarge => "number too large to fit in target type"
  | .tooSmall => "number too small to fit in target type"

namespace Long

/-- The greatest long. -/
def maxValue : Int := 9223372036854775807

/-- The least long. -/
def minValue : Int := -9223372036854775808

/-- Reads the digits after the sign into a magnitude of at most `limit`. -/
def readDigits (limit : Nat) (overflow : LongError) : Nat → List Char → Except LongError Nat
  | n, [] => .ok n
  | n, c :: cs =>
    if c.isDigit then
      let n' := 10 * n + (c.toNat - '0'.toNat)
      if n' ≤ limit then readDigits limit overflow n' cs else .error overflow
    else .error .invalidDigit

/-- **Reads a long** from its text. -/
def read (s : String) : Except LongError Int :=
  match s.toList with
  | [] => .error .empty
  | ['+'] | ['-'] => .error .invalidDigit
  | '-' :: cs => (fun n => -(n : Int)) <$> readDigits minValue.natAbs .tooSmall 0 cs
  | '+' :: cs => (fun n => (n : Int)) <$> readDigits maxValue.toNat .tooLarge 0 cs
  | cs => (fun n => (n : Int)) <$> readDigits maxValue.toNat .tooLarge 0 cs

/-- The decimal text of a long. -/
def render (n : Int) : String := toString n

end Long

end Depot.Numeral
