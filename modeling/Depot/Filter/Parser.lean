import Depot.Filter.Basic
import Depot.Text.Blank

/-!
# Reading filters

`Depot.Filter.parse` reads the text of a filter. Blanks may stand around the
whole text, after every `(`, after `&`, `|` and `!`, between the children of a
conjunction or disjunction, before every `)` that closes a node, and between
an attribute name and its operator; inside an operand they belong to the
operand.

A leaf is an attribute name, an operator and an operand. The name may not hold
`(`, `)`, `*` or `\`, and it is trimmed. In the operand, `\` keeps the
character after it and an unescaped `*` separates segments; `(` must be escaped.
With `=`, two or more segments make a pattern, and exactly two empty segments a
presence test; the other operators take no `*`.

A refused text is reported with the position, in characters, where reading
stopped, and the fault found there (`Depot.FilterError`).
-/

namespace Depot

/-- **Why a text is not a filter.** -/
inductive FilterFault where
  | empty
  | trailing
  | unexpectedEnd
  | noOperand
  | expectedOperator
  | invalidAttrChar (c : Char)
  | missingAttr
  | unterminated
  | unescapedParen
  | danglingEscape
  | wildcardOperator
  | expected (c : Char)
  deriving DecidableEq, Repr

/-- The text of a filter fault. -/
def FilterFault.message : FilterFault → String
  | .empty => "empty filter"
  | .trailing => "unexpected trailing characters"
  | .unexpectedEnd => "unexpected end of filter"
  | .noOperand => "operator requires at least one operand"
  | .expectedOperator => "expected one of '=', '~=', '>=', '<='"
  | .invalidAttrChar c => "invalid character '" ++ c.toString ++ "' in attribute"
  | .missingAttr => "missing attribute name"
  | .unterminated => "unterminated value"
  | .unescapedParen => "unescaped '(' in value"
  | .danglingEscape => "dangling escape"
  | .wildcardOperator => "wildcards are only allowed with '='"
  | .expected c => "expected '" ++ c.toString ++ "'"

/-- **A refused filter text**: the text, the position in characters where
reading stopped, and the fault found there. -/
structure FilterError where
  filter : String
  position : Nat
  fault : FilterFault
  deriving DecidableEq, Repr

/-- The text of a filter error. -/
def FilterError.message (e : FilterError) : String :=
  "Invalid filter '" ++ e.filter ++ "' at position " ++ toString e.position ++ ": " ++
    e.fault.message

namespace Filter

/-- The result of reading a prefix of a text: what was read and the rest, or
the fault and the rest at the point where reading stopped. -/
abbrev Step (α : Type) := Except (FilterFault × List Char) (α × List Char)

/-- Drops blanks at the front. -/
def skipBlank (cs : List Char) : List Char := cs.dropWhile Text.isBlank

/-- The characters that end an attribute name: the first of an operator. -/
def endsAttr (c : Char) : Bool := c = '=' ∨ c = '~' ∨ c = '<' ∨ c = '>'

/-- The characters that may not stand in an attribute name. -/
def badInAttr (c : Char) : Bool := c = '(' ∨ c = ')' ∨ c = '*' ∨ c = '\\'

/-- Reads an attribute name up to the first character of an operator. -/
def readAttr : List Char → Step (List Char)
  | [] => .ok ([], [])
  | c :: cs =>
    if endsAttr c then .ok ([], c :: cs)
    else if badInAttr c then .error (.invalidAttrChar c, c :: cs)
    else match readAttr cs with
      | .ok (a, r) => .ok (c :: a, r)
      | .error e => .error e

/-- Reads an operator. -/
def readOp : List Char → Option (Op × List Char)
  | '=' :: r => some (.equal, r)
  | '~' :: '=' :: r => some (.approx, r)
  | '>' :: '=' :: r => some (.greaterEq, r)
  | '<' :: '=' :: r => some (.lessEq, r)
  | _ => none

/-- Reads an operand up to its closing parenthesis, which stays unread: the
first segment, and the segments after each unescaped `*`. -/
def readOperand : List Char → Step (List Char × List (List Char))
  | [] => .error (.unterminated, [])
  | ')' :: r => .ok (([], []), ')' :: r)
  | '(' :: r => .error (.unescapedParen, '(' :: r)
  | ['\\'] => .error (.danglingEscape, [])
  | '\\' :: c :: r => match readOperand r with
    | .ok ((s, ss), rest) => .ok ((c :: s, ss), rest)
    | .error e => .error e
  | '*' :: r => match readOperand r with
    | .ok ((s, ss), rest) => .ok (([], s :: ss), rest)
    | .error e => .error e
  | c :: r => match readOperand r with
    | .ok ((s, ss), rest) => .ok ((c :: s, ss), rest)
    | .error e => .error e

/-- The leaf of an attribute, an operator and the segments of an operand. -/
def leaf (attr : String) (op : Op) (s : List Char) (ss : List (List Char)) (r : List Char) :
    Step Filter :=
  match op, ss with
  | _, [] => .ok (.compare attr op (String.ofList s), r)
  | .equal, _ =>
    if s = [] ∧ ss = [[]] then .ok (.present attr, r)
    else .ok (.substring attr (String.ofList s :: ss.map String.ofList), r)
  | _, _ => .error (.wildcardOperator, r)

/-- Reads a leaf: attribute name, operator and operand. -/
def readItem (cs : List Char) : Step Filter :=
  match readAttr cs with
  | .error e => .error e
  | .ok (rawAttr, r) =>
    let attr := Text.trimList rawAttr
    if attr = [] then .error (.missingAttr, r)
    else match readOp r with
      | none => .error (.expectedOperator, r)
      | some (op, r) => match readOperand r with
        | .error e => .error e
        | .ok ((s, ss), r) => leaf (String.ofList attr) op s ss r

/-- Reads the `)` that closes a node, after blanks. -/
def close (f : Filter) (cs : List Char) : Step Filter :=
  match skipBlank cs with
  | ')' :: r => .ok (f, r)
  | r => .error (.expected ')', r)

mutual

/-- Reads one filter; the fuel bounds the depth of the calls. -/
def readFilter : Nat → List Char → Step Filter
  | 0, cs => .error (.unexpectedEnd, cs)
  | n + 1, cs =>
    match cs with
    | '(' :: r =>
      match skipBlank r with
      | '&' :: r => match readList n r with
        | .ok ([], r) => .error (.noOperand, r)
        | .ok (fs, r) => close (.and fs) r
        | .error e => .error e
      | '|' :: r => match readList n r with
        | .ok ([], r) => .error (.noOperand, r)
        | .ok (fs, r) => close (.or fs) r
        | .error e => .error e
      | '!' :: r => match readFilter n (skipBlank r) with
        | .ok (f, r) => close (.not f) r
        | .error e => .error e
      | [] => .error (.unexpectedEnd, [])
      | r => match readItem r with
        | .ok (f, r) => close f r
        | .error e => .error e
    | _ => .error (.expected '(', cs)

/-- Reads the filters that follow one another, each after blanks, as long as
the next character opens one. -/
def readList : Nat → List Char → Step (List Filter)
  | 0, cs => .ok ([], skipBlank cs)
  | n + 1, cs =>
    match skipBlank cs with
    | '(' :: r => match readFilter n ('(' :: r) with
      | .ok (f, r) => match readList n r with
        | .ok (fs, r) => .ok (f :: fs, r)
        | .error e => .error e
      | .error e => .error e
    | r => .ok ([], r)

end

/-- **Reads a filter** from its text. Each call of the reader consumes a
character or is followed by one that does, so twice the length of the text
bounds the depth of the calls. -/
def parse (s : String) : Except FilterError Filter :=
  let cs := s.toList
  let fail (e : FilterFault × List Char) : Except FilterError Filter :=
    .error ⟨s, cs.length - e.2.length, e.1⟩
  match skipBlank cs with
  | [] => fail (.empty, [])
  | body => match readFilter (2 * cs.length + 2) body with
    | .error e => fail e
    | .ok (f, r) => match skipBlank r with
      | [] => .ok f
      | r => fail (.trailing, r)

end Filter

end Depot
