/-!
# Filters

A filter is a boolean condition on an attribute map, written in the
parenthesised prefix notation of directory queries: `(&(a=1)(|(b>=2)(c~=x)))`.
The nodes are conjunction, disjunction and negation, and three leaves: a
comparison of an attribute with an operand, a wildcard pattern over a text
attribute, and a presence test.

`Depot.Filter.render` writes the canonical text: no blanks, each operand with a
backslash before `\`, `(`, `)` and `*`, a pattern's segments joined by `*`, and
a presence test as `(attr=*)`.
-/

namespace Depot

/-- **A comparison operator**: equality, approximate equality (case and
blanks ignored), at least and at most. -/
inductive Op where
  | equal
  | approx
  | greaterEq
  | lessEq
  deriving DecidableEq, Repr

/-- The symbol of an operator. -/
def Op.symbol : Op → String
  | .equal => "="
  | .approx => "~="
  | .greaterEq => ">="
  | .lessEq => "<="

/-- **A filter.** -/
inductive Filter where
  /-- Every child holds. -/
  | and (children : List Filter)
  /-- Some child holds. -/
  | or (children : List Filter)
  /-- The child does not hold. -/
  | not (child : Filter)
  /-- Some element of the attribute compares with the operand as the operator
  says. -/
  | compare (attr : String) (op : Op) (operand : String)
  /-- Some text element of the attribute matches the segments with any text
  between consecutive ones. -/
  | substring (attr : String) (segments : List String)
  /-- The attribute is present. -/
  | present (attr : String)
  deriving Repr, Inhabited

namespace Filter

mutual

/-- Decides whether two filters are equal. -/
def decEq (f g : Filter) : Decidable (f = g) :=
  match f, g with
  | .and xs, .and ys =>
    match decEqAll xs ys with
    | isTrue h => isTrue (h ▸ rfl)
    | isFalse h => isFalse fun e => h (by injection e)
  | .or xs, .or ys =>
    match decEqAll xs ys with
    | isTrue h => isTrue (h ▸ rfl)
    | isFalse h => isFalse fun e => h (by injection e)
  | .not x, .not y =>
    match decEq x y with
    | isTrue h => isTrue (h ▸ rfl)
    | isFalse h => isFalse fun e => h (by injection e)
  | .compare a o v, .compare b p w =>
    if h : a = b ∧ o = p ∧ v = w then isTrue (by rw [h.1, h.2.1, h.2.2])
    else isFalse fun e => h (by injection e with h1 h2 h3; exact ⟨h1, h2, h3⟩)
  | .substring a ss, .substring b ts =>
    if h : a = b ∧ ss = ts then isTrue (by rw [h.1, h.2])
    else isFalse fun e => h (by injection e with h1 h2; exact ⟨h1, h2⟩)
  | .present a, .present b =>
    if h : a = b then isTrue (by rw [h]) else isFalse fun e => h (by injection e)
  | .and _, .or _ => isFalse Filter.noConfusion
  | .and _, .not _ => isFalse Filter.noConfusion
  | .and _, .compare _ _ _ => isFalse Filter.noConfusion
  | .and _, .substring _ _ => isFalse Filter.noConfusion
  | .and _, .present _ => isFalse Filter.noConfusion
  | .or _, .and _ => isFalse Filter.noConfusion
  | .or _, .not _ => isFalse Filter.noConfusion
  | .or _, .compare _ _ _ => isFalse Filter.noConfusion
  | .or _, .substring _ _ => isFalse Filter.noConfusion
  | .or _, .present _ => isFalse Filter.noConfusion
  | .not _, .and _ => isFalse Filter.noConfusion
  | .not _, .or _ => isFalse Filter.noConfusion
  | .not _, .compare _ _ _ => isFalse Filter.noConfusion
  | .not _, .substring _ _ => isFalse Filter.noConfusion
  | .not _, .present _ => isFalse Filter.noConfusion
  | .compare _ _ _, .and _ => isFalse Filter.noConfusion
  | .compare _ _ _, .or _ => isFalse Filter.noConfusion
  | .compare _ _ _, .not _ => isFalse Filter.noConfusion
  | .compare _ _ _, .substring _ _ => isFalse Filter.noConfusion
  | .compare _ _ _, .present _ => isFalse Filter.noConfusion
  | .substring _ _, .and _ => isFalse Filter.noConfusion
  | .substring _ _, .or _ => isFalse Filter.noConfusion
  | .substring _ _, .not _ => isFalse Filter.noConfusion
  | .substring _ _, .compare _ _ _ => isFalse Filter.noConfusion
  | .substring _ _, .present _ => isFalse Filter.noConfusion
  | .present _, .and _ => isFalse Filter.noConfusion
  | .present _, .or _ => isFalse Filter.noConfusion
  | .present _, .not _ => isFalse Filter.noConfusion
  | .present _, .compare _ _ _ => isFalse Filter.noConfusion
  | .present _, .substring _ _ => isFalse Filter.noConfusion

/-- Decides whether two lists of filters are equal. -/
def decEqAll (fs gs : List Filter) : Decidable (fs = gs) :=
  match fs, gs with
  | [], [] => isTrue rfl
  | [], _ :: _ => isFalse (by simp)
  | _ :: _, [] => isFalse (by simp)
  | f :: fs, g :: gs =>
    match decEq f g, decEqAll fs gs with
    | isTrue h1, isTrue h2 => isTrue (by rw [h1, h2])
    | isFalse h, _ => isFalse fun e => h (by injection e)
    | _, isFalse h => isFalse fun e => h (by injection e)

end

instance : DecidableEq Filter := decEq

/-- Puts a backslash before every `\`, `(`, `)` and `*`. -/
def escapeChars : List Char → List Char
  | [] => []
  | c :: cs =>
    if c = '\\' ∨ c = '(' ∨ c = ')' ∨ c = '*' then '\\' :: c :: escapeChars cs
    else c :: escapeChars cs

/-- **Escapes an operand** for the text of a filter. -/
def escape (s : String) : String := String.ofList (escapeChars s.toList)

/-- The segments of a pattern, escaped and joined by `*`. -/
def pattern : List String → List Char
  | [] => []
  | [s] => escapeChars s.toList
  | s :: ss => escapeChars s.toList ++ '*' :: pattern ss

mutual

/-- **The canonical text of a filter**, as characters. -/
def renderChars : Filter → List Char
  | .and fs => '(' :: '&' :: renderAll fs ++ [')']
  | .or fs => '(' :: '|' :: renderAll fs ++ [')']
  | .not f => '(' :: '!' :: renderChars f ++ [')']
  | .compare a op v => '(' :: a.toList ++ op.symbol.toList ++ escapeChars v.toList ++ [')']
  | .substring a ss => '(' :: a.toList ++ '=' :: pattern ss ++ [')']
  | .present a => '(' :: a.toList ++ ['=', '*', ')']

/-- The texts of filters, one after the other. -/
def renderAll : List Filter → List Char
  | [] => []
  | f :: fs => renderChars f ++ renderAll fs

end

/-- **The canonical text of a filter.** -/
def render (f : Filter) : String := String.ofList f.renderChars

mutual

/-- The number of nested nodes on the longest path from the root; a leaf has
depth one. -/
def depth : Filter → Nat
  | .and fs => depthAll fs + 1
  | .or fs => depthAll fs + 1
  | .not f => depth f + 1
  | _ => 1

/-- The greatest depth of a list of filters. -/
def depthAll : List Filter → Nat
  | [] => 0
  | f :: fs => max (depth f) (depthAll fs)

end

end Filter

end Depot
