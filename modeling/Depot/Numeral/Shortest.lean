/-!
# Shortest decimals of binary64 values

A finite binary64 value stands for every real that rounds to it: the interval
from halfway to its lower neighbour to halfway to its upper neighbour, the ends
included exactly when the significand is even (`Depot.Numeral.Binary.readsBack`).
The *shortest decimal* of the value is the decimal with the fewest significant
digits in that interval, and of two such decimals the nearer to the value; an
exact tie between two goes to the larger (`Depot.Numeral.Binary.shortest`).

The search is the definition turned into a loop. With `10 ^ (k - 1) ≤ x < 10 ^ k`,
for `n = 1, 2, …, 17` it looks at the two neighbours of `x` on the grid
`10 ^ (k - n)` and stops at the first grid where one of them reads back.
Everything is exact arithmetic on naturals: no float operation is used.

`Depot.Numeral.Decimal.positional` writes a decimal without an exponent, with
no trailing zeros after the point and no point after a whole number.
-/

namespace Depot.Numeral

/-- **A finite non-negative binary64 magnitude** `m * 2 ^ q`. When the value is
a power of two above the least normal one, the gap to the value below is half
the gap to the value above (`narrowBelow`). -/
structure Binary where
  m : Nat
  q : Int
  narrowBelow : Bool
  deriving Repr, DecidableEq

/-- **A decimal** `digits * 10 ^ exp`. -/
structure Decimal where
  digits : Nat
  exp : Int
  deriving Repr, DecidableEq

namespace Binary

/-- The magnitude that a bit pattern with a finite exponent field stands for;
the sign bit is ignored. -/
def ofBits (b : UInt64) : Binary :=
  let e := ((b >>> 52) &&& 0x7FF).toNat
  let f := (b &&& 0xFFFFFFFFFFFFF).toNat
  if e == 0 then ⟨f, -1074, false⟩ else ⟨Nat.pow 2 52 + f, (e : Int) - 1075, f == 0 && e > 1⟩

end Binary

/-- Compares `a * 10 ^ i` with `n * 2 ^ j` exactly. -/
def cmpScaled (a : Nat) (i : Int) (n : Nat) (j : Int) : Ordering :=
  compare (a * Nat.pow 10 i.toNat * Nat.pow 2 (-j).toNat)
    (n * Nat.pow 2 j.toNat * Nat.pow 10 (-i).toNat)

namespace Binary

/-- Whether the decimal `d` lies among the reals that round to the value:
above halfway to the lower neighbour and below halfway to the upper one, the
ends included when the significand is even. -/
def readsBack (x : Binary) (d : Decimal) : Bool :=
  let lo := if x.narrowBelow then 4 * x.m - 1 else 4 * x.m - 2
  let hi := 4 * x.m + 2
  let incl := x.m % 2 == 0
  let cl := cmpScaled d.digits d.exp lo (x.q - 2)
  let ch := cmpScaled d.digits d.exp hi (x.q - 2)
  (cl == .gt || (incl && cl == .eq)) && (ch == .lt || (incl && ch == .eq))

/-- The value as a fraction `num / den` of naturals, multiplied by `10 ^ s`. -/
def scaled (x : Binary) (s : Int) : Nat × Nat :=
  (x.m * Nat.pow 2 x.q.toNat * Nat.pow 10 s.toNat, Nat.pow 2 (-x.q).toNat * Nat.pow 10 (-s).toNat)

/-- Whether the value is below `10 ^ k`. -/
def lt_pow (x : Binary) (k : Int) : Bool :=
  let (num, den) := x.scaled (-k)
  num < den

/-- Moves an estimate of the decimal exponent to the least `k` with the value
below `10 ^ k`; each step of fuel moves by one. -/
def settleScale (x : Binary) : Nat → Int → Int
  | 0, k => k
  | fuel + 1, k =>
    if !x.lt_pow k then x.settleScale fuel (k + 1)
    else if x.lt_pow (k - 1) then x.settleScale fuel (k - 1)
    else k

/-- The least `k` with the value below `10 ^ k`, for a non-zero value. The
estimate from the binary length is off by at most one, and the fuel covers
far more. -/
def scale (x : Binary) : Int :=
  let bits : Int := (Nat.log2 x.m : Int) + 1 + x.q
  x.settleScale 8 (bits * 30103 / 100000)

/-- The candidate on the grid `10 ^ g`: one of the two neighbours of the value
that reads back, the nearer one if both do, the upper one on a tie. -/
def onGrid (x : Binary) (g : Int) : Option Decimal :=
  let (num, den) := x.scaled (-g)
  let d := num / den
  let below : Decimal := ⟨d, g⟩
  let above : Decimal := ⟨d + 1, g⟩
  match x.readsBack below, x.readsBack above with
  | true, true => if 2 * num < (2 * d + 1) * den then some below else some above
  | true, false => some below
  | false, true => some above
  | false, false => none

/-- The exact decimal value of `m * 2 ^ q`. -/
def exactDecimal (x : Binary) : Decimal :=
  if 0 ≤ x.q then ⟨x.m * Nat.pow 2 x.q.toNat, 0⟩ else ⟨x.m * Nat.pow 5 (-x.q).toNat, x.q⟩

/-- **The shortest decimal** of a non-zero value: the first grid of
`1, 2, …, 17` significant digits with a candidate; seventeen digits always
suffice, and the exact value stands behind them. -/
def shortest (x : Binary) : Decimal :=
  let k := x.scale
  ((List.range 17).findSome? fun n => x.onGrid (k - (n + 1 : Nat))).getD x.exactDecimal

end Binary

namespace Decimal

/-- Moves the trailing zeros of the digits into the exponent. -/
def strip (d : Decimal) : Decimal :=
  if h : d.digits ≠ 0 ∧ d.digits % 10 = 0 then
    strip ⟨d.digits / 10, d.exp + 1⟩
  else d
termination_by d.digits
decreasing_by exact Nat.div_lt_self (Nat.pos_of_ne_zero h.1) (by decide)

/-- `n` zeros. -/
def zeros (n : Nat) : String := String.ofList (List.replicate n '0')

/-- **The decimal without an exponent**: the digits, then as many zeros as the
exponent says, or with a point put in, and a leading `0.` and zeros when the
point falls before the first digit. -/
def positional (d : Decimal) : String :=
  let d := d.strip
  let s := toString d.digits
  if 0 ≤ d.exp then
    s ++ zeros d.exp.toNat
  else
    let p := (-d.exp).toNat
    let len := s.length
    if p < len then
      String.ofList (s.toList.take (len - p)) ++ "." ++ String.ofList (s.toList.drop (len - p))
    else
      "0." ++ zeros (p - len) ++ s

end Decimal

end Depot.Numeral
