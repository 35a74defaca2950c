/-!
# Tables

A table maps names to values, each name at most once. It is kept as a list of
entries: `Depot.Table.insert` replaces the entry of a name already present in
place and appends a new name at the end, so no name appears twice.

Attribute maps and directive maps of capabilities and requirements are tables.
-/

namespace Depot

/-- **A table** from names to values. -/
structure Table (α : Type) where
  entries : List (String × α)
  deriving Inhabited

namespace Table

variable {α : Type}

/-- The empty table. -/
def empty : Table α := ⟨[]⟩

/-- The value of a name. -/
def get? (t : Table α) (k : String) : Option α := (t.entries.find? (·.1 == k)).map (·.2)

/-- Whether a name has a value. -/
def contains (t : Table α) (k : String) : Bool := t.entries.any (·.1 == k)

/-- Replaces a name's value in a list of entries, or appends the name. -/
def put (k : String) (v : α) : List (String × α) → List (String × α)
  | [] => [(k, v)]
  | (k', v') :: es => if k' == k then (k, v) :: es else (k', v') :: put k v es

/-- **Sets a name's value**: the entry of the name is replaced where it stands,
or a new entry is appended. -/
def insert (t : Table α) (k : String) (v : α) : Table α := ⟨put k v t.entries⟩

/-- **Removes a name** and its value. -/
def erase (t : Table α) (k : String) : Table α := ⟨t.entries.filter (·.1 != k)⟩

/-- The names, in the order of the entries. -/
def keys (t : Table α) : List String := t.entries.map (·.1)

/-- The table of a list of entries; of two entries for one name the later wins. -/
def ofList (es : List (String × α)) : Table α := es.foldl (fun t (k, v) => t.insert k v) empty

/-- The values, with their names. -/
def toList (t : Table α) : List (String × α) := t.entries

/-- Applies a function to every value. -/
def map {β : Type} (f : α → β) (t : Table α) : Table β := ⟨t.entries.map fun (k, v) => (k, f v)⟩

end Table

end Depot
