import Depot.Numeral.Double

/-!
# TOML documents

A reader of TOML 1.0 documents, enough to decide whether a text is a document
and to give the values of its keys. A document is a sequence of lines: blank
lines, comments, `key = value` pairs, table headers `[a.b]` and headers of
tables in an array `[[a.b]]`. Keys are bare (ASCII letters, digits, `_` and
`-`) or quoted, and may be dotted. Values are strings (basic or literal,
single-line or multi-line), integers (decimal, hexadecimal, octal or binary,
within 64 bits), floats (below positive infinity), booleans, dates and times,
arrays and inline tables. A key has fewer than `Depot.Toml.nestingLimit` parts,
and arrays and inline tables nest less deep than that.

## Which tables may grow

Every table records how it came to be (`Depot.Toml.Origin`), and that decides
what may still be added to it:

* a header takes over a table only if the table was made as the prefix of an
  earlier header and not opened since;
* a dotted key walks through tables made by dotted keys or as prefixes of
  headers, and through an array of tables into its last table; the table that
  receives the key must have been made by dotted keys, unless the key has a
  single part and goes to the table being filled;
* a key is defined once, and an inline table is a value, closed to everything
  but its own pairs, where a dotted key walks through tables made by dotted
  keys only.

The table that the pairs after a header go to is held apart from the tree until
the next header or the end of the text (`Depot.Toml.Doc`), so a header never
reaches into it.
-/

namespace Depot.Toml

/-- **How a table came to be.** -/
inductive Origin where
  /-- Opened by a header. -/
  | header
  /-- Created as the prefix of a header, and not opened yet. -/
  | implicit
  /-- Created by a dotted key. -/
  | dotted
  /-- Written inline: a value, closed to later additions. -/
  | inline
  deriving DecidableEq, Repr

/-- **A node of a document.** -/
inductive Node where
  | string (s : String)
  | integer (n : Int)
  | float
  | boolean (b : Bool)
  | datetime
  | array (items : List Node)
  | table (origin : Origin) (entries : List (String × Node))
  | tableArray (items : List (List (String × Node)))
  deriving Inhabited

/-- The entries of a table. -/
abbrev Entries := List (String × Node)

/-- Keys have fewer parts, and arrays and inline tables nest less deep, than
this. -/
def nestingLimit : Nat := 80

/-- The node of a key in a table. -/
def lookup (k : String) (es : Entries) : Option Node := (es.find? (·.1 == k)).map (·.2)

/-- Replaces the node of a key in a table. -/
def replace (k : String) (n : Node) (es : Entries) : Entries :=
  es.map fun (k', n') => if k' == k then (k', n) else (k', n')

/-- Removes a key from a table. -/
def erase (k : String) (es : Entries) : Entries := es.filter (·.1 != k)

/-! ### The tree -/

/-- Defines a dotted key in an inline table: the tables on the way were made by
dotted keys, created when missing, and the last part is new. -/
def assignInline (v : Node) : List String → Entries → Option Entries
  | [], _ => none
  | [k], es => if (lookup k es).isSome then none else some (es ++ [(k, v)])
  | k :: ks, es => match lookup k es with
    | none => (fun sub => es ++ [(k, .table .dotted sub)]) <$> assignInline v ks []
    | some (.table .dotted sub) => (fun sub => replace k (.table .dotted sub) es) <$> assignInline v ks sub
    | _ => none

/-- Defines a dotted key in the table being filled: the tables on the way were
made by dotted keys or as prefixes of headers, created when missing, or are an
array of tables, which stands for its last table; the one that receives the
last part was made by dotted keys, unless the key has a single part; the last
part is new. -/
def assign (v : Node) : List String → Entries → Option Entries
  | [], _ => none
  | [k], es => if (lookup k es).isSome then none else some (es ++ [(k, v)])
  | k :: ks, es =>
    let receives := ks.length == 1
    match lookup k es with
    | none => (fun sub => es ++ [(k, .table .dotted sub)]) <$> assign v ks []
    | some (.table o sub) =>
      if o = .header ∨ o = .inline ∨ (receives ∧ o ≠ .dotted) then none
      else (fun sub => replace k (.table o sub) es) <$> assign v ks sub
    | some (.tableArray items) => match items.getLast? with
      | some last =>
        if receives then none
        else (fun sub => replace k (.tableArray (items.dropLast ++ [sub])) es) <$>
          assign v ks last
      | none => none
    | _ => none

/-- Edits the table at a path from the root, with a result beside: missing
tables on the way are created as prefixes of headers, an array of tables
stands for its last table, and a value or an inline table stops the walk. -/
def atPath {β : Type} (f : Entries → Option (Entries × β)) :
    List String → Entries → Option (Entries × β)
  | [], es => f es
  | k :: ks, es => match lookup k es with
    | none => (fun (sub, b) => (es ++ [(k, .table .implicit sub)], b)) <$> atPath f ks []
    | some (.table o sub) =>
      if o = .inline then none
      else (fun (sub, b) => (replace k (.table o sub) es, b)) <$> atPath f ks sub
    | some (.tableArray items) => match items.getLast? with
      | some last =>
        (fun (sub, b) => (replace k (.tableArray (items.dropLast ++ [sub])) es, b)) <$>
          atPath f ks last
      | none => none
    | _ => none

/-- **A document being read**: the tree so far, and the table that the pairs go
to, held apart from the tree, with the key of its header (empty before the
first header) and whether that header opens a table of an array. -/
structure Doc where
  root : Entries
  current : Entries
  path : List String
  isArray : Bool

/-- The document before its first line. -/
def Doc.empty : Doc := ⟨[], [], [], false⟩

/-- Puts the table being filled into the tree: as the root before any header,
as the next table of its array, or at its header's key, in the place of a
table that no header has opened. -/
def Doc.close (d : Doc) : Option Entries :=
  match d.path.getLast? with
  | none => some d.current
  | some k =>
    let put (parent : Entries) : Option (Entries × Unit) :=
      match lookup k parent, d.isArray with
      | none, true => some (parent ++ [(k, .tableArray [d.current])], ())
      | some (.tableArray items), true =>
        some (replace k (.tableArray (items ++ [d.current])) parent, ())
      | none, false => some (parent ++ [(k, .table .header d.current)], ())
      | some (.table o _), false =>
        if o = .implicit ∨ o = .dotted then some (replace k (.table .header d.current) parent, ())
        else none
      | _, _ => none
    Prod.fst <$> atPath put d.path.dropLast d.root

/-- Opens the table of a header `[path]`: a table made as the prefix of an
earlier header is taken out of the tree to be filled; any other node at the key
refuses the header. -/
def Doc.openTable (root : Entries) (path : List String) : Option Doc :=
  match path.getLast? with
  | none => none
  | some k =>
    let take (parent : Entries) : Option (Entries × Entries) :=
      match lookup k parent with
      | none => some (parent, [])
      | some (.table .implicit sub) => some (erase k parent, sub)
      | some _ => none
    (fun (root, current) => ⟨root, current, path, false⟩) <$> atPath take path.dropLast root

/-- Opens a new table of the array of a header `[[path]]`: the array is created
when missing, and any other node at the key refuses the header. -/
def Doc.openArray (root : Entries) (path : List String) : Option Doc :=
  match path.getLast? with
  | none => none
  | some k =>
    let prepare (parent : Entries) : Option (Entries × Unit) :=
      match lookup k parent with
      | none => some (parent ++ [(k, .tableArray [])], ())
      | some (.tableArray _) => some (parent, ())
      | some _ => none
    (fun (root, _) => ⟨root, [], path, true⟩) <$> atPath prepare path.dropLast root

/-! ### Characters -/

/-- Space and tab. -/
def isWs (c : Char) : Bool := c = ' ' ∨ c = '\t'

/-- The characters of a bare key. -/
def isBare (c : Char) : Bool := c.isAlphanum ∨ c = '_' ∨ c = '-'

/-- The control characters that may not stand in strings and comments: all but
the tab. -/
def isControl (c : Char) : Bool := (c.toNat < 0x20 ∧ c ≠ '\t') ∨ c.toNat = 0x7F

/-- Drops spaces and tabs. -/
def skipWs (cs : List Char) : List Char := cs.dropWhile isWs

/-- Skips blanks, newlines and comments, as between the items of an array. -/
def skipGap (inComment : Bool) : List Char → Option (List Char)
  | [] => some []
  | '\n' :: r => skipGap false r
  | '\r' :: '\n' :: r => skipGap false r
  | c :: r =>
    if inComment then (if isControl c then none else skipGap true r)
    else if isWs c then skipGap false r
    else if c = '#' then skipGap true r
    else some (c :: r)

/-- Reads the end of a line: blanks, an optional comment and the newline. -/
def endLine (inComment : Bool) : List Char → Option (List Char)
  | [] => some []
  | '\n' :: r => some r
  | '\r' :: '\n' :: r => some r
  | c :: r =>
    if inComment then (if isControl c then none else endLine true r)
    else if isWs c then endLine false r
    else if c = '#' then endLine true r
    else none

/-! ### Strings -/

/-- The value of hexadecimal digits. -/
def hexValue (cs : List Char) : Option Nat :=
  cs.foldlM (fun acc c =>
    if c.isDigit then some (16 * acc + (c.toNat - 48))
    else if 'a' ≤ c ∧ c ≤ 'f' then some (16 * acc + (c.toNat - 87))
    else if 'A' ≤ c ∧ c ≤ 'F' then some (16 * acc + (c.toNat - 55))
    else none) 0

/-- The character of a Unicode scalar value written in hexadecimal. -/
def scalarOf (cs : List Char) : Option Char := do
  let v ← hexValue cs
  if v < 0xD800 ∨ (0xDFFF < v ∧ v ≤ 0x10FFFF) then some (Char.ofNat v) else none

/-- The character an escape after a backslash stands for, and the rest. -/
def readEscape : List Char → Option (Char × List Char)
  | 'b' :: r => some ('\x08', r)
  | 't' :: r => some ('\t', r)
  | 'n' :: r => some ('\n', r)
  | 'f' :: r => some ('\x0c', r)
  | 'r' :: r => some ('\r', r)
  | '"' :: r => some ('"', r)
  | '\\' :: r => some ('\\', r)
  | 'u' :: a :: b :: c :: d :: r => (·, r) <$> scalarOf [a, b, c, d]
  | 'U' :: a :: b :: c :: d :: e :: f :: g :: h :: r => (·, r) <$> scalarOf [a, b, c, d, e, f, g, h]
  | _ => none

/-- Prepends a character to what was read. -/
def cons (c : Char) : Option (List Char × List Char) → Option (List Char × List Char)
  | some (s, r) => some (c :: s, r)
  | none => none

/-- Reads a basic string after its opening quote; the fuel bounds its length. -/
def readBasic : Nat → List Char → Option (List Char × List Char)
  | 0, _ => none
  | _, [] => none
  | _ + 1, '"' :: r => some ([], r)
  | n + 1, '\\' :: r => match readEscape r with
    | some (c, r) => cons c (readBasic n r)
    | none => none
  | n + 1, c :: r => if isControl c then none else cons c (readBasic n r)

/-- Reads a literal string after its opening apostrophe. -/
def readLiteral : List Char → Option (List Char × List Char)
  | [] => none
  | '\'' :: r => some ([], r)
  | c :: r => if isControl c then none else cons c (readLiteral r)

/-- Drops one newline at the front. -/
def dropNewline : List Char → List Char
  | '\n' :: r => r
  | '\r' :: '\n' :: r => r
  | r => r

/-- Whether a text starts, after blanks, with a newline. -/
def atLineEnd (cs : List Char) : Bool :=
  match skipWs cs with
  | '\n' :: _ | '\r' :: '\n' :: _ => true
  | _ => false

/-- Drops blanks and newlines; a carriage return is part of a newline only
before a line feed. -/
def dropWsNewlines : List Char → List Char
  | '\r' :: '\n' :: r => dropWsNewlines r
  | c :: r => if isWs c ∨ c = '\n' then dropWsNewlines r else c :: r
  | [] => []

/-- Reads a multi-line basic string after its opening quotes; the fuel bounds
its length. -/
def readMultiBasic : Nat → List Char → Option (List Char × List Char)
  | 0, _ => none
  | _ + 1, '"' :: '"' :: '"' :: '"' :: '"' :: r => some (['"', '"'], r)
  | _ + 1, '"' :: '"' :: '"' :: '"' :: r => some (['"'], r)
  | _ + 1, '"' :: '"' :: '"' :: r => some ([], r)
  | n + 1, '\\' :: r =>
    if atLineEnd r then readMultiBasic n (dropWsNewlines r)
    else match readEscape r with
      | some (c, r) => cons c (readMultiBasic n r)
      | none => none
  | n + 1, '\r' :: '\n' :: r => cons '\n' (readMultiBasic n r)
  | n + 1, '\n' :: r => cons '\n' (readMultiBasic n r)
  | _, [] => none
  | n + 1, c :: r => if isControl c then none else cons c (readMultiBasic n r)

/-- Reads a multi-line literal string after its opening apostrophes. -/
def readMultiLiteral : List Char → Option (List Char × List Char)
  | '\'' :: '\'' :: '\'' :: '\'' :: '\'' :: r => some (['\'', '\''], r)
  | '\'' :: '\'' :: '\'' :: '\'' :: r => some (['\''], r)
  | '\'' :: '\'' :: '\'' :: r => some ([], r)
  | '\r' :: '\n' :: r => cons '\n' (readMultiLiteral r)
  | '\n' :: r => cons '\n' (readMultiLiteral r)
  | [] => none
  | c :: r => if isControl c then none else cons c (readMultiLiteral r)

/-! ### Numbers, booleans, dates -/

/-- A run of digits in which every underscore stands between two digits. -/
def underscored (isD : Char → Bool) : List Char → Bool
  | [] => false
  | [c] => isD c
  | c :: '_' :: rest => isD c && (rest.head?.map isD).getD false && underscored isD rest
  | c :: rest => isD c && underscored isD rest

/-- The value of digits in a base, underscores skipped. -/
def valueIn (base : Nat) (cs : List Char) : Nat :=
  (cs.filter (· ≠ '_')).foldl (fun acc c =>
    let d := if c.isDigit then c.toNat - 48
      else if 'a' ≤ c ∧ c ≤ 'f' then c.toNat - 87 else c.toNat - 55
    base * acc + d) 0

/-- Whether a character is a hexadecimal digit. -/
def isHex (c : Char) : Bool :=
  c.isDigit ∨ ('a' ≤ c ∧ c ≤ 'f') ∨ ('A' ≤ c ∧ c ≤ 'F')

/-- A decimal run without a superfluous leading zero. -/
def decimalPart (cs : List Char) : Bool :=
  underscored Char.isDigit cs && (cs.head? != some '0' || cs = ['0'])

/-- The sign at the front, and the rest. -/
def sign : List Char → Bool × List Char
  | '+' :: r => (false, r)
  | '-' :: r => (true, r)
  | r => (false, r)

/-- Reads an integer token. -/
def integerOf (cs : List Char) : Option Int :=
  let fits (v : Int) : Option Int := if -9223372036854775808 ≤ v ∧ v ≤ 9223372036854775807 then some v else none
  match cs with
  | '0' :: 'x' :: r => if underscored isHex r then fits (valueIn 16 r) else none
  | '0' :: 'o' :: r =>
    if underscored (fun c => '0' ≤ c ∧ c ≤ '7') r then fits (valueIn 8 r) else none
  | '0' :: 'b' :: r =>
    if underscored (fun c => c = '0' ∨ c = '1') r then fits (valueIn 2 r) else none
  | _ =>
    let (neg, body) := sign cs
    if decimalPart body then
      fits (if neg then -(valueIn 10 body : Int) else valueIn 10 body)
    else none

/-- Whether an exponent, after its `e`, is well formed. -/
def exponentOk (cs : List Char) : Bool := underscored Char.isDigit (sign cs).2

/-- Whether a token is a float. -/
def isFloat (cs : List Char) : Bool :=
  let body := (sign cs).2
  if body = "inf".toList ∨ body = "nan".toList then true
  else
    let whole := body.takeWhile fun c => c.isDigit ∨ c = '_'
    let rest := body.dropWhile fun c => c.isDigit ∨ c = '_'
    decimalPart whole &&
      match rest with
      | '.' :: r =>
        let frac := r.takeWhile fun c => c.isDigit ∨ c = '_'
        underscored Char.isDigit frac &&
          match r.dropWhile fun c => c.isDigit ∨ c = '_' with
          | [] => true
          | e :: x => (e = 'e' ∨ e = 'E') && exponentOk x
      | e :: x => (e = 'e' ∨ e = 'E') && exponentOk x
      | [] => false

/-- Whether a float token stays below positive infinity: a number whose value
rounds past the greatest double is refused, while `inf` written out is not. -/
def belowInfinity (cs : List Char) : Bool :=
  let body := (sign cs).2
  body == "inf".toList || body == "nan".toList ||
    match Numeral.Double.read (String.ofList (cs.filter (· ≠ '_'))) with
    | .ok x => !(x.isInf && 0 < x)
    | .error _ => true

/-- Whether characters are ASCII digits, as many as given. -/
def digitsOf (n : Nat) (cs : List Char) : Option Nat :=
  if cs.length = n ∧ cs.all Char.isDigit then some (valueIn 10 cs) else none

/-- The days of a month. -/
def monthDays (year month : Nat) : Nat :=
  if month = 2 then
    (if year % 4 = 0 ∧ (year % 100 ≠ 0 ∨ year % 400 = 0) then 29 else 28)
  else if month = 4 ∨ month = 6 ∨ month = 9 ∨ month = 11 then 30 else 31

/-- Whether a token is a date `YYYY-MM-DD`. -/
def isDate (cs : List Char) : Bool :=
  match cs with
  | [y1, y2, y3, y4, '-', m1, m2, '-', d1, d2] =>
    match digitsOf 4 [y1, y2, y3, y4], digitsOf 2 [m1, m2], digitsOf 2 [d1, d2] with
    | some y, some m, some d => 1 ≤ m && m ≤ 12 && 1 ≤ d && d ≤ monthDays y m
    | _, _, _ => false
  | _ => false

/-- Whether a token is a time `HH:MM:SS` with optional fraction and offset,
the offset allowed when `withOffset`. -/
def isTime (withOffset : Bool) (cs : List Char) : Bool :=
  match cs with
  | h1 :: h2 :: ':' :: m1 :: m2 :: ':' :: s1 :: s2 :: rest =>
    let clockOk := match digitsOf 2 [h1, h2], digitsOf 2 [m1, m2], digitsOf 2 [s1, s2] with
      | some h, some m, some s => h ≤ 23 && m ≤ 59 && s ≤ 60
      | _, _, _ => false
    let rest := match rest with
      | '.' :: r =>
        let frac := r.takeWhile Char.isDigit
        if frac = [] then none else some (r.dropWhile Char.isDigit)
      | r => some r
    let offsetOk (r : List Char) : Bool :=
      match r with
      | [] => true
      | ['Z'] | ['z'] => withOffset
      | [s, a, b, ':', c, d] =>
        withOffset && (s = '+' ∨ s = '-') &&
          match digitsOf 2 [a, b], digitsOf 2 [c, d] with
          | some h, some m => h ≤ 23 && m ≤ 59
          | _, _ => false
      | _ => false
    clockOk && match rest with
      | some r => offsetOk r
      | none => false
  | _ => false

/-- Whether a token is a date and time, a date or a time. -/
def isDateTime (cs : List Char) : Bool :=
  isDate cs || isTime false cs ||
    (isDate (cs.take 10) && match cs.drop 10 with
      | c :: r => (c = 'T' ∨ c = 't' ∨ c = ' ') && isTime true r
      | [] => false)

/-- The characters of a number, boolean or date token. -/
def isTokenChar (c : Char) : Bool :=
  c.isAlphanum ∨ c = '_' ∨ c = '+' ∨ c = '-' ∨ c = '.' ∨ c = ':'

/-- Reads a number, boolean or date. A date followed by a space and a time is
one token. -/
def readAtom (cs : List Char) : Option (Node × List Char) :=
  let tok := cs.takeWhile isTokenChar
  let rest := cs.dropWhile isTokenChar
  let (tok, rest) := match rest with
    | ' ' :: r =>
      let tok2 := r.takeWhile isTokenChar
      if isDate tok && isTime true tok2 then (tok ++ ' ' :: tok2, r.dropWhile isTokenChar)
      else (tok, rest)
    | _ => (tok, rest)
  if tok = "true".toList then some (.boolean true, rest)
  else if tok = "false".toList then some (.boolean false, rest)
  else match integerOf tok with
    | some n => some (.integer n, rest)
    | none =>
      if isFloat tok then (if belowInfinity tok then some (.float, rest) else none)
      else if isDateTime tok then some (.datetime, rest)
      else none

/-! ### Keys and values -/

/-- Reads a key without dots. -/
def readSimpleKey (cs : List Char) : Option (String × List Char) :=
  match cs with
  | '"' :: r => (fun (s, r) => (String.ofList s, r)) <$> readBasic (r.length + 1) r
  | '\'' :: r => (fun (s, r) => (String.ofList s, r)) <$> readLiteral r
  | _ =>
    let k := cs.takeWhile isBare
    if k = [] then none else some (String.ofList k, cs.dropWhile isBare)

/-- Reads a dotted key; the fuel bounds the number of parts. -/
def readKey : Nat → List Char → Option (List String × List Char)
  | 0, _ => none
  | n + 1, cs => do
    let (k, r) ← readSimpleKey cs
    match skipWs r with
    | '.' :: r => do
      let (ks, r) ← readKey n (skipWs r)
      pure (k :: ks, r)
    | _ => pure ([k], r)

/-- Reads a key of fewer than `nestingLimit` parts. -/
def readDottedKey (cs : List Char) : Option (List String × List Char) := do
  let (ks, r) ← readKey (cs.length + 1) cs
  if ks.length < nestingLimit then some (ks, r) else none

/-- Reads a string value. -/
def readStringValue (cs : List Char) : Option (Node × List Char) :=
  let str : Option (List Char × List Char) → Option (Node × List Char) :=
    Option.map fun (s, r) => (.string (String.ofList s), r)
  match cs with
  | '"' :: '"' :: '"' :: r => str (readMultiBasic (r.length + 1) (dropNewline r))
  | '"' :: r => str (readBasic (r.length + 1) r)
  | '\'' :: '\'' :: '\'' :: r => str (readMultiLiteral (dropNewline r))
  | '\'' :: r => str (readLiteral r)
  | _ => none

mutual

/-- Reads a value inside `level` arrays and inline tables; the fuel bounds the
depth of the calls. -/
def readValue : Nat → Nat → List Char → Option (Node × List Char)
  | 0, _, _ => none
  | n + 1, level, cs =>
    match cs with
    | '"' :: _ | '\'' :: _ => readStringValue cs
    | '[' :: r => if level + 1 < nestingLimit then readArray n (level + 1) r [] else none
    | '{' :: r => if level + 1 < nestingLimit then readInline n (level + 1) (skipWs r) [] else none
    | _ => readAtom cs

/-- Reads the items of an array after its opening bracket. -/
def readArray : Nat → Nat → List Char → List Node → Option (Node × List Char)
  | 0, _, _, _ => none
  | n + 1, level, cs, acc => do
    let cs ← skipGap false cs
    match cs with
    | ']' :: r => pure (.array acc, r)
    | _ =>
      let (v, r) ← readValue n level cs
      let r ← skipGap false r
      match r with
      | ',' :: r => readArray n level r (acc ++ [v])
      | ']' :: r => pure (.array (acc ++ [v]), r)
      | _ => none

/-- Reads the pairs of an inline table after its opening brace. -/
def readInline : Nat → Nat → List Char → Entries → Option (Node × List Char)
  | 0, _, _, _ => none
  | n + 1, level, cs, es =>
    match cs with
    | '}' :: r => if es.isEmpty then some (.table .inline [], r) else none
    | _ => do
      let (keys, r) ← readDottedKey cs
      match skipWs r with
      | '=' :: r => do
        let (v, r) ← readValue n level (skipWs r)
        let es ← assignInline v keys es
        match skipWs r with
        | ',' :: r => readInline n level (skipWs r) es
        | '}' :: r => pure (.table .inline es, r)
        | _ => none
      | _ => none

end

/-! ### Documents -/

/-- Reads the lines of a document; the fuel bounds the number of lines, and
`depth` the depth of the calls that read a value. -/
def readLines (depth : Nat) : Nat → List Char → Doc → Option Entries
  | 0, _, _ => none
  | n + 1, cs, d =>
    match skipWs cs with
    | [] => d.close
    | '\n' :: r => readLines depth n r d
    | '\r' :: '\n' :: r => readLines depth n r d
    | '#' :: r => do readLines depth n (← endLine true r) d
    | '[' :: '[' :: r => do
      let (keys, r) ← readDottedKey (skipWs r)
      match skipWs r with
      | ']' :: ']' :: r => do
        let d ← Doc.openArray (← d.close) keys
        readLines depth n (← endLine false r) d
      | _ => none
    | '[' :: r => do
      let (keys, r) ← readDottedKey (skipWs r)
      match skipWs r with
      | ']' :: r => do
        let d ← Doc.openTable (← d.close) keys
        readLines depth n (← endLine false r) d
      | _ => none
    | cs => do
      let (keys, r) ← readDottedKey cs
      match skipWs r with
      | '=' :: r => do
        let (v, r) ← readValue depth 0 (skipWs r)
        let current ← assign v keys d.current
        readLines depth n (← endLine false r) { d with current }
      | _ => none

/-- **Reads a document**: the entries of its root table, or nothing when the
text is not a document. A byte order mark at the very start is skipped. -/
def parse (text : String) : Option Entries :=
  let cs := match text.toList with
    | '\uFEFF' :: r => r
    | r => r
  readLines (2 * cs.length + 4) (cs.length + 1) cs Doc.empty

end Depot.Toml
