import Depot.Version.Basic
import Depot.Numeral.Long
import Depot.Numeral.Double

/-!
# Attribute values

An attribute value is one *scalar* or a *list* of scalars of one kind. The four
kinds are text, versions, longs (integers from `-2 ^ 63` to `2 ^ 63 - 1`) and
doubles (binary64 values). A list holds elements of a single kind by its type
(`Depot.Items`); an empty list counts as a list of texts.

Values are compared by `Depot.Value.equiv`: scalars of one kind by their own
equality (doubles by IEEE equality, under which NaN differs from itself and the
two zeros agree), lists element by element, and every empty list equals every
other empty list whatever its kind.

Every scalar has a canonical text, its *key* (`Depot.Scalar.key`): the text
itself, a version's canonical text, a long in decimal, a double's shortest
decimal. Requirements and capabilities meet on these keys.
-/

namespace Depot

/-- **The four kinds of scalars.** -/
inductive Kind where
  | string
  | version
  | long
  | double
  deriving DecidableEq, Repr, Inhabited

/-- The name of a kind, as a type spec writes it. -/
def Kind.name : Kind → String
  | .string => "String"
  | .version => "Version"
  | .long => "Long"
  | .double => "Double"

/-- **A scalar**: a text, a version, a long or a double. -/
inductive Scalar where
  | string (s : String)
  | version (v : Version)
  | long (n : Int)
  | double (x : Float)
  deriving Inhabited

namespace Scalar

/-- The kind of a scalar. -/
def kind : Scalar → Kind
  | .string _ => .string
  | .version _ => .version
  | .long _ => .long
  | .double _ => .double

/-- Equality of scalars: the same kind and equal values, doubles by IEEE
equality. -/
def equiv : Scalar → Scalar → Bool
  | .string a, .string b => a == b
  | .version a, .version b => a == b
  | .long a, .long b => a == b
  | .double a, .double b => a == b
  | _, _ => false

/-- **The key of a scalar**, its canonical text. -/
def key : Scalar → String
  | .string s => s
  | .version v => v.render
  | .long n => Numeral.Long.render n
  | .double x => Numeral.Double.render x

end Scalar

/-- **A list of scalars of one kind.** -/
inductive Items where
  | strings (xs : List String)
  | versions (xs : List Version)
  | longs (xs : List Int)
  | doubles (xs : List Float)
  deriving Inhabited

namespace Items

/-- The elements as scalars. -/
def scalars : Items → List Scalar
  | .strings xs => xs.map .string
  | .versions xs => xs.map .version
  | .longs xs => xs.map .long
  | .doubles xs => xs.map .double

/-- Whether the list is empty. -/
def isEmpty (xs : Items) : Bool := xs.scalars.isEmpty

/-- The kind of the elements; an empty list is a list of texts. -/
def kind (xs : Items) : Kind :=
  if xs.isEmpty then .string
  else match xs with
    | .strings _ => .string
    | .versions _ => .version
    | .longs _ => .long
    | .doubles _ => .double

/-- The empty list of a kind. -/
def empty : Kind → Items
  | .string => .strings []
  | .version => .versions []
  | .long => .longs []
  | .double => .doubles []

/-- Equality of lists: element by element. Two empty lists are equal. -/
def equiv (a b : Items) : Bool :=
  a.scalars.length == b.scalars.length &&
    (a.scalars.zip b.scalars).all fun (x, y) => x.equiv y

/-- Collects scalars of the kind `k` into a list; the first scalar of
another kind is returned instead. -/
def collect : Kind → List Scalar → Except Scalar Items
  | .string, xs => .strings <$> xs.mapM fun | .string s => .ok s | x => .error x
  | .version, xs => .versions <$> xs.mapM fun | .version v => .ok v | x => .error x
  | .long, xs => .longs <$> xs.mapM fun | .long n => .ok n | x => .error x
  | .double, xs => .doubles <$> xs.mapM fun | .double d => .ok d | x => .error x

end Items

/-- **An attribute value**: one scalar or a list of scalars of one kind. -/
inductive Value where
  | scalar (x : Scalar)
  | list (xs : Items)
  deriving Inhabited

/-- A type spec: a kind, and whether the value is a list of it. -/
structure TypeSpec where
  kind : Kind
  isList : Bool
  deriving DecidableEq, Repr

/-- The text of a type spec: `Kind` or `List<Kind>`. -/
def TypeSpec.render (t : TypeSpec) : String :=
  if t.isList then "List<" ++ t.kind.name ++ ">" else t.kind.name

namespace Value

/-- The kind of the value's elements; an empty list is a list of texts. -/
def kind : Value → Kind
  | .scalar x => x.kind
  | .list xs => xs.kind

/-- Whether the value is a list. -/
def isList : Value → Bool
  | .scalar _ => false
  | .list _ => true

/-- The type spec of the value. -/
def typeSpec (v : Value) : TypeSpec := ⟨v.kind, v.isList⟩

/-- The elements: the scalar alone, or the list's elements in order. -/
def elements : Value → List Scalar
  | .scalar x => [x]
  | .list xs => xs.scalars

/-- **Equality of values**: scalars by `Depot.Scalar.equiv`, lists element by
element, and never a scalar with a list. -/
def equiv : Value → Value → Bool
  | .scalar a, .scalar b => a.equiv b
  | .list a, .list b => a.equiv b
  | _, _ => false

/-- A value of text. -/
def ofString (s : String) : Value := .scalar (.string s)

end Value

/-! ### Errors -/

/-- **Why a scalar's text does not read as its kind.** -/
inductive ScalarError where
  | version (e : VersionError)
  | long (e : Numeral.LongError)
  | double (e : Numeral.DoubleError)
  deriving DecidableEq, Repr

namespace ScalarError

/-- The kind that was being read. -/
def kind : ScalarError → Kind
  | .version _ => .version
  | .long _ => .long
  | .double _ => .double

/-- The reason, in words. -/
def message : ScalarError → String
  | .version e => e.message
  | .long e => e.message
  | .double e => e.message

end ScalarError

/-- **Why an attribute value cannot be built.** -/
inductive AttributeError where
  /-- A token does not read as a scalar of the kind asked for. -/
  | malformed (token : String) (why : ScalarError)
  /-- A type spec names no kind. -/
  | unknownType (spec : String)
  /-- A list would mix kinds or nest lists. -/
  | heterogeneous (expected found : String)
  deriving DecidableEq, Repr

/-- The text of an attribute error. -/
def AttributeError.message : AttributeError → String
  | .malformed token why =>
    "Malformed " ++ why.kind.name ++ " value '" ++ token ++ "': " ++ why.message
  | .unknownType spec => "Unknown attribute type '" ++ spec ++ "'"
  | .heterogeneous expected found =>
    "List elements must all be " ++ expected ++ ", found " ++ found

namespace Value

/-- **The list of a sequence of values**: the first value fixes the kind, and
every value must be a scalar of that kind. An empty sequence gives the empty
list. -/
def inferList : List Value → Except AttributeError Value
  | [] => .ok (.list (.strings []))
  | first :: rest =>
    let mismatch (v : Value) : AttributeError :=
      .heterogeneous first.kind.name v.typeSpec.render
    let pick (v : Value) : Except AttributeError Scalar :=
      match v with
      | .scalar x => if x.kind = first.kind then .ok x else .error (mismatch v)
      | .list _ => .error (mismatch v)
    match (first :: rest).mapM pick with
    | .error e => .error e
    | .ok xs => match Items.collect first.kind xs with
      | .ok items => .ok (.list items)
      | .error x => .error (mismatch (.scalar x))

end Value

end Depot
