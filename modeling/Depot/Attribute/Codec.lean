import Depot.Attribute.Basic
import Depot.Text.Blank

/-!
# The text form of attribute values

An attribute value travels as two texts: a *type spec* (`Long`, `List<Version>`,
or nothing for text) and a *raw* text. A scalar's raw text is its key
(`Depot.Scalar.key`). A list's raw text joins its elements' keys with commas,
after putting a backslash before every comma and backslash inside them.

Reading (`Depot.Value.decode`) trims the raw text first. A list is then cut at
the commas that no backslash protects, a backslash keeps the character after
it (or itself, at the very end), and every element is trimmed after that. An
empty raw text is the empty list, so a list of one empty text does not come
back, and neither do elements with blanks at their ends.
-/

namespace Depot

namespace Kind

/-- The kind a name stands for, blanks ignored; no name is a text. -/
def ofName? (s : String) : Option Kind :=
  match String.ofList (Text.trimList s.toList) with
  | "" | "String" => some .string
  | "Version" => some .version
  | "Long" => some .long
  | "Double" => some .double
  | _ => none

end Kind

namespace TypeSpec

/-- Reads what follows `List` in a list's type spec: nothing, or a kind name
between `<` and `>`. -/
def ofListSuffix (spec : String) (rest : List Char) : Except AttributeError TypeSpec :=
  match Text.trimList rest with
  | [] => .ok ⟨.string, true⟩
  | '<' :: inner =>
    if inner.getLast? = some '>' then
      match Kind.ofName? (String.ofList inner.dropLast) with
      | some k => .ok ⟨k, true⟩
      | none => .error (.unknownType spec)
    else .error (.unknownType spec)
  | _ => .error (.unknownType spec)

/-- **Reads a type spec**, blanks ignored: a kind name, or `List` followed by
nothing or by a kind name between angle brackets. A missing spec is text. -/
def parse (spec : Option String) : Except AttributeError TypeSpec :=
  let cs := Text.trimList (spec.getD "").toList
  let text := String.ofList cs
  match cs with
  | 'L' :: 'i' :: 's' :: 't' :: rest => ofListSuffix text rest
  | _ => match Kind.ofName? text with
    | some k => .ok ⟨k, false⟩
    | none => .error (.unknownType text)

end TypeSpec

/-! ### Lists as text -/

namespace ListText

/-- Puts a backslash before every comma and backslash. -/
def escape : List Char → List Char
  | [] => []
  | c :: cs => if c = ',' ∨ c = '\\' then '\\' :: c :: escape cs else c :: escape cs

/-- Cuts a text at its unprotected commas, dropping the backslashes that
protect a character: the first field, and the fields after it. -/
def fields : List Char → List Char × List (List Char)
  | [] => ([], [])
  | ['\\'] => (['\\'], [])
  | '\\' :: c :: rest => let (f, fs) := fields rest; (c :: f, fs)
  | ',' :: rest => let (f, fs) := fields rest; ([], f :: fs)
  | c :: rest => let (f, fs) := fields rest; (c :: f, fs)

/-- **The elements of a list's raw text**, each trimmed; an empty text has
none. -/
def split (cs : List Char) : List String :=
  if cs = [] then []
  else
    let (f, fs) := fields cs
    (f :: fs).map fun e => String.ofList (Text.trimList e)

/-- **The raw text of a list**: the escaped elements joined by commas. -/
def join (es : List String) : String :=
  ",".intercalate (es.map fun e => String.ofList (escape e.toList))

end ListText

/-! ### Reading and writing values -/

namespace Scalar

/-- Reads a token as a scalar of a kind. -/
def read (k : Kind) (token : String) : Except AttributeError Scalar :=
  match k with
  | .string => .ok (.string token)
  | .version => match Version.parse token with
    | .ok v => .ok (.version v)
    | .error e => .error (.malformed token (.version e))
  | .long => match Numeral.Long.read token with
    | .ok n => .ok (.long n)
    | .error e => .error (.malformed token (.long e))
  | .double => match Numeral.Double.read token with
    | .ok x => .ok (.double x)
    | .error e => .error (.malformed token (.double e))

end Scalar

namespace Items

/-- Reads tokens as a list of one kind; the first token that does not read
gives the error. -/
def read : Kind → List String → Except AttributeError Items
  | .string, es => .ok (.strings es)
  | .version, es => .versions <$> es.mapM fun e =>
    (Version.parse e).mapError fun err => .malformed e (.version err)
  | .long, es => .longs <$> es.mapM fun e =>
    (Numeral.Long.read e).mapError fun err => .malformed e (.long err)
  | .double, es => .doubles <$> es.mapM fun e =>
    (Numeral.Double.read e).mapError fun err => .malformed e (.double err)

end Items

namespace Value

/-- **Reads a value** from its type spec and raw text. -/
def decode (spec : Option String) (raw : String) : Except AttributeError Value := do
  let t ← TypeSpec.parse spec
  let body := Text.trimList raw.toList
  if t.isList then
    .list <$> Items.read t.kind (ListText.split body)
  else
    .scalar <$> Scalar.read t.kind (String.ofList body)

/-- **Writes a value** as its type spec and raw text. -/
def encode (v : Value) : String × String :=
  (v.typeSpec.render,
    match v with
    | .scalar x => x.key
    | .list xs => ListText.join (xs.scalars.map Scalar.key))

end Value

end Depot
