/-!
# Hexadecimal text of bytes

Every byte is written as two lowercase hexadecimal digits, high half first.
Reading accepts both cases and refuses an odd number of digits.
-/

namespace Depot.Text.Hex

/-- The lowercase digit of a value below sixteen. -/
def digit (n : Nat) : Char := if n < 10 then Char.ofNat (48 + n) else Char.ofNat (87 + n)

/-- The value of a hexadecimal digit of either case. -/
def value? (c : Char) : Option Nat :=
  if '0' ≤ c ∧ c ≤ '9' then some (c.toNat - 48)
  else if 'a' ≤ c ∧ c ≤ 'f' then some (c.toNat - 87)
  else if 'A' ≤ c ∧ c ≤ 'F' then some (c.toNat - 55)
  else none

/-- Whether a character is a hexadecimal digit of either case. -/
def isDigit (c : Char) : Bool := (value? c).isSome

/-- **The hexadecimal text of bytes.** -/
def encode (bs : List UInt8) : String :=
  String.ofList (bs.flatMap fun b => [digit (b.toNat / 16), digit (b.toNat % 16)])

/-- Reads pairs of hexadecimal digits as bytes. -/
def decodeChars : List Char → Option (List UInt8)
  | [] => some []
  | [_] => none
  | hi :: lo :: rest => do
    let h ← value? hi
    let l ← value? lo
    let bs ← decodeChars rest
    pure ((16 * h + l).toUInt8 :: bs)

/-- **The bytes of a hexadecimal text**, if it is one. -/
def decode? (s : String) : Option (List UInt8) := decodeChars s.toList

example : encode [0, 15, 16, 255] = "000f10ff" := by decide

end Depot.Text.Hex
