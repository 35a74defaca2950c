import Depot.Version.Basic

/-!
# Version ranges

A range is a floor, inclusive or not, and an optional ceiling, inclusive or
not. Its text is interval notation, `[1.0,2.0)` or `(1.0,]`, or a bare version,
which is the range of every version at or above it. An empty upper part leaves
the ceiling open; a ceiling below the floor is refused.

`Depot.VersionRange.toFilter` writes membership as a filter over a version
attribute. The filter language only compares with `>=` and `<=`, so an
exclusive bound becomes the negation of the inclusive comparison the other way.
-/

namespace Depot

/-- **A range of versions**: a floor and an optional ceiling, each with a flag
telling whether the bound itself belongs to the range. -/
structure VersionRange where
  floor : Version
  floorInclusive : Bool
  ceiling : Option (Version × Bool)
  deriving DecidableEq, Repr

namespace VersionRange

/-- Every version at or above `v`. -/
def atLeast (v : Version) : VersionRange := ⟨v, true, none⟩

/-- The version `v` alone. -/
def exact (v : Version) : VersionRange := ⟨v, true, some (v, true)⟩

/-- Whether a version lies in the range. -/
def includes (r : VersionRange) (v : Version) : Bool :=
  let aboveFloor :=
    if r.floorInclusive then compare v r.floor != .lt else compare v r.floor == .gt
  let belowCeiling :=
    match r.ceiling with
    | none => true
    | some (c, true) => compare v c != .gt
    | some (c, false) => compare v c == .lt
  aboveFloor && belowCeiling

/-- The text of a range: a bare floor when it is inclusive and there is no
ceiling, `(floor,)` when it is exclusive and there is none, else the interval
with its two brackets. -/
def render (r : VersionRange) : String :=
  match r.ceiling with
  | none => if r.floorInclusive then r.floor.render else "(" ++ r.floor.render ++ ",)"
  | some (c, inclusive) =>
    (if r.floorInclusive then "[" else "(") ++ r.floor.render ++ "," ++ c.render ++
      (if inclusive then "]" else ")")

/-- Membership written as a filter over the attribute `attr`. -/
def toFilter (r : VersionRange) (attr : String) : String :=
  let floor :=
    if r.floorInclusive then "(" ++ attr ++ ">=" ++ r.floor.render ++ ")"
    else "(!(" ++ attr ++ "<=" ++ r.floor.render ++ "))"
  match r.ceiling with
  | none => floor
  | some (c, true) => "(&" ++ floor ++ "(" ++ attr ++ "<=" ++ c.render ++ "))"
  | some (c, false) => "(&" ++ floor ++ "(!(" ++ attr ++ ">=" ++ c.render ++ ")))"

/-- Reads the inside of an interval, between its brackets. -/
def ofInterval (input : String) (floorInclusive ceilingInclusive : Bool) (inner : List Char) :
    Except VersionError VersionRange :=
  match inner.dropWhile (· ≠ ',') with
  | [] => .error (.invalidRange input)
  | _ :: high => do
    let floor ← Version.parse (String.ofList (inner.takeWhile (· ≠ ',')))
    if Text.trimList high = [] then
      pure ⟨floor, floorInclusive, none⟩
    else
      let ceiling ← Version.parse (String.ofList high)
      if compare ceiling floor == .lt then .error (.invalidRange input)
      else pure ⟨floor, floorInclusive, some (ceiling, ceilingInclusive)⟩

/-- **Reads a range**: interval notation, or a bare version for the range of
every version at or above it. Blanks at both ends are ignored. -/
def parse (s : String) : Except VersionError VersionRange :=
  let cs := Text.trimList s.toList
  let input := String.ofList cs
  match cs with
  | [] => .error .empty
  | first :: rest =>
    if first = '[' ∨ first = '(' then
      match rest.getLast? with
      | some ']' => ofInterval input (first = '[') true rest.dropLast
      | some ')' => ofInterval input (first = '[') false rest.dropLast
      | _ => .error (.invalidRange input)
    else
      atLeast <$> Version.parse input

end VersionRange

end Depot
