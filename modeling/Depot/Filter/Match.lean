import Depot.Filter.Basic
import Depot.Attribute.Basic
import Depot.Text.Lowercase
import Depot.Table

/-!
# Evaluating filters

`Depot.Filter.accepts` decides a filter on an attribute map. A comparison holds
when some element of the attribute compares with the operand as the operator
says, the operand being read in the element's kind:

* a text compares as text: `=` is equality, `~=` equality once blanks are
  dropped and letters lowered (`Depot.Text.foldCase`), `>=` and `<=` the order
  of code points;
* a long or a double compares numerically with the trimmed operand read as a
  number of its kind, and a version with the operand read as a version;
  `=` and `~=` both mean equality there;
* an operand that does not read in the element's kind never matches, and a NaN
  matches no comparison at all.

A pattern holds when some text element matches its segments
(`Depot.Filter.matchSegments`); a missing attribute fails every comparison,
pattern and presence test.
-/

namespace Depot

/-- Whether an ordering of an element against an operand satisfies an
operator. -/
def Op.holds : Op → Ordering → Bool
  | .equal, o | .approx, o => o == .eq
  | .greaterEq, o => o != .lt
  | .lessEq, o => o != .gt

/-- The order of two doubles, none when either is NaN. -/
def compareDouble (x y : Float) : Option Ordering :=
  if x < y then some .lt
  else if x == y then some .eq
  else if y < x then some .gt
  else none

namespace Scalar

/-- **Whether a scalar satisfies a comparison** with an operand text. -/
def satisfies (x : Scalar) (op : Op) (operand : String) : Bool :=
  match x with
  | .string s => match op with
    | .equal => s == operand
    | .approx => Text.foldCase s.toList == Text.foldCase operand.toList
    | .greaterEq => !decide (s < operand)
    | .lessEq => !decide (operand < s)
  | .long n => match Numeral.Long.read (Text.trim operand) with
    | .ok m => op.holds (compare n m)
    | .error _ => false
  | .double d => match Numeral.Double.read (Text.trim operand) with
    | .ok e => match compareDouble d e with
      | some o => op.holds o
      | none => false
    | .error _ => false
  | .version v => match Version.parse operand with
    | .ok w => op.holds (compare v w)
    | .error _ => false

end Scalar

namespace Filter

/-- The text after the leftmost occurrence of `p` in `s`. -/
def afterFirst (p : List Char) : List Char → Option (List Char)
  | [] => if p = [] then some [] else none
  | c :: cs => if p.isPrefixOf (c :: cs) then some ((c :: cs).drop p.length) else afterFirst p cs

/-- Matches the inner and last segments of a pattern against the rest of a
text: each inner segment at its leftmost occurrence, and the last at the end. -/
def matchTail (s : List Char) : List (List Char) → Bool
  | [] => s = []
  | [last] => last.isSuffixOf s
  | seg :: segs => match afterFirst seg s with
    | some r => matchTail r segs
    | none => false

/-- **Whether a text matches the segments of a pattern**: it starts with the
first segment, contains the inner segments in order at their leftmost
occurrences, and ends with the last segment after them. -/
def matchSegments (s : List Char) : List (List Char) → Bool
  | [] => false
  | first :: rest =>
    if first.isPrefixOf s then matchTail (s.drop first.length) rest else false

mutual

/-- **Whether an attribute map satisfies a filter.** -/
def accepts (attrs : Table Value) : Filter → Bool
  | .and fs => acceptsAll attrs fs
  | .or fs => acceptsAny attrs fs
  | .not f => !accepts attrs f
  | .present a => attrs.contains a
  | .compare a op v => match attrs.get? a with
    | some val => val.elements.any fun x => x.satisfies op v
    | none => false
  | .substring a segs => match attrs.get? a with
    | some val => val.elements.any fun
      | .string s => matchSegments s.toList (segs.map String.toList)
      | _ => false
    | none => false

/-- Whether an attribute map satisfies every filter of a list. -/
def acceptsAll (attrs : Table Value) : List Filter → Bool
  | [] => true
  | f :: fs => accepts attrs f && acceptsAll attrs fs

/-- Whether an attribute map satisfies some filter of a list. -/
def acceptsAny (attrs : Table Value) : List Filter → Bool
  | [] => false
  | f :: fs => accepts attrs f || acceptsAny attrs fs

end

@[simp] theorem accepts_and (attrs : Table Value) (fs : List Filter) :
    accepts attrs (.and fs) = acceptsAll attrs fs := rfl

@[simp] theorem accepts_not (attrs : Table Value) (f : Filter) :
    accepts attrs (.not f) = !accepts attrs f := rfl

@[simp] theorem acceptsAll_nil (attrs : Table Value) : acceptsAll attrs [] = true := rfl

@[simp] theorem acceptsAll_cons (attrs : Table Value) (f : Filter) (fs : List Filter) :
    acceptsAll attrs (f :: fs) = (accepts attrs f && acceptsAll attrs fs) := rfl

end Filter

end Depot
