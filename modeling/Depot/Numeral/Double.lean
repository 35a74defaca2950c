import Depot.Numeral.Shortest

/-!
# Binary64 values as text

A *double* is written as its shortest decimal (`Depot.Numeral.Binary.shortest`)
without an exponent: `0.1`, `1`, `1000000000000000000000`, `0.000…5`. Zero keeps
its sign (`-0`), and the values that are no numbers are written `NaN`, `inf`
and `-inf`.

Reading accepts an optional sign, then `inf`, `infinity` or `nan` in any case,
or digits with an optional point and an optional exponent `e` or `E` with an
optional sign; at least one digit stands before the exponent and at least one
in it. The value is the decimal rounded to the nearest double, ties to even;
a decimal beyond the largest double reads as infinity, one far below the least
as zero.
-/

namespace Depot.Numeral

/-- **Why a text is not a double.** -/
inductive DoubleError where
  /-- The text is empty. -/
  | empty
  /-- The text does not follow the grammar. -/
  | invalid
  deriving DecidableEq, Repr

/-- The text of a double error. -/
def DoubleError.message : DoubleError → String
  | .empty => "cannot parse float from empty string"
  | .invalid => "invalid float literal"

namespace Double

/-- Whether the bits have the exponent field of the infinities and NaNs. -/
def isSpecial (b : UInt64) : Bool := (b >>> 52) &&& 0x7FF == 0x7FF

/-- **The text of a double.** -/
def render (x : Float) : String :=
  let b := x.toBits
  let sign := if b >>> 63 == 1 then "-" else ""
  if isSpecial b then
    if b &&& 0xFFFFFFFFFFFFF != 0 then "NaN" else sign ++ "inf"
  else
    let v := Binary.ofBits b
    sign ++ (if v.m == 0 then "0" else v.shortest.positional)

/-! ### Reading -/

/-- The value of a list of decimal digits. -/
def digitsValue (cs : List Char) : Nat :=
  cs.foldl (fun acc c => acc * 10 + (c.toNat - '0'.toNat)) 0

/-- The exponent after `e`: an optional sign and at least one digit, and
nothing after them. -/
def readExponent (cs : List Char) : Option Int :=
  let (neg, ds) := match cs with
    | '-' :: r => (true, r)
    | '+' :: r => (false, r)
    | r => (false, r)
  if ds ≠ [] ∧ ds.all Char.isDigit then
    some (if neg then -(digitsValue ds : Int) else digitsValue ds)
  else none

/-- A decimal numeral as digits and a power of ten: digits, an optional point
and digits, at least one digit in all, and an optional exponent. -/
def readDecimal (cs : List Char) : Option (Nat × Int) :=
  let whole := cs.takeWhile Char.isDigit
  let rest := cs.dropWhile Char.isDigit
  let (frac, rest) := match rest with
    | '.' :: r => (r.takeWhile Char.isDigit, r.dropWhile Char.isDigit)
    | r => ([], r)
  if whole.length + frac.length = 0 then none
  else
    let m := digitsValue (whole ++ frac)
    let shift : Int := -(frac.length : Int)
    match rest with
    | [] => some (m, shift)
    | c :: r =>
      if c = 'e' ∨ c = 'E' then (readExponent r).map fun e => (m, shift + e)
      else none

/-- The double nearest to `m * 10 ^ e`; far beyond the range it is infinity
or zero without computing the power. -/
def ofDecimal (m : Nat) (e : Int) : Float :=
  if m = 0 then 0
  else
    let lead := (toString m).length + e
    if 310 < lead then Float.ofBits 0x7FF0000000000000
    else if lead < -330 then 0
    else Float.ofScientific m (e < 0) e.natAbs

/-- The words for infinity and NaN, in any case. -/
def readWord (cs : List Char) : Option Float :=
  match String.ofList (cs.map Char.toLower) with
  | "inf" | "infinity" => some (Float.ofBits 0x7FF0000000000000)
  | "nan" => some (Float.ofBits 0x7FF8000000000000)
  | _ => none

/-- **Reads a double** from its text. -/
def read (s : String) : Except DoubleError Float :=
  match s.toList with
  | [] => .error .empty
  | c :: rest =>
    let (neg, body) :=
      if c = '-' then (true, rest) else if c = '+' then (false, rest) else (false, c :: rest)
    let signed (x : Float) : Float := if neg then -x else x
    if body = [] then .error .invalid
    else match readDecimal body with
      | some (m, e) => .ok (signed (ofDecimal m e))
      | none => match readWord body with
        | some x => .ok (signed x)
        | none => .error .invalid

end Double

end Depot.Numeral
