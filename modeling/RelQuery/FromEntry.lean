import RelQuery.Column

/-!
# FROM-list entries

An entry of a FROM list names a stored table and may give it an alias.  Everything else in a query
speaks of the entry by its reference name.
-/

namespace RelQuery

/-- A FROM-list entry. -/
structure FromEntry where
  /-- The name of the stored table. -/
  name : String
  /-- The alias, if there is one. -/
  label : Option String
  deriving DecidableEq

namespace FromEntry

/-- The alias, or the table name where there is none. -/
def referenceName (table : FromEntry) : String :=
  table.label.getD table.name

/-- The two entries have the same reference name. -/
def same (a b : FromEntry) : Bool :=
  Name.same a.referenceName b.referenceName

/-- The text that shows the entry. -/
def render (table : FromEntry) : String :=
  match table.label with
  | some label => table.name ++ " AS " ++ label
  | none => table.name

end FromEntry

/-- A FROM-list entry together with the definition of the table it names. -/
structure BoundEntry where
  table : FromEntry
  definition : TableSchema
  deriving DecidableEq

namespace BoundEntry

/-- The reference name of the entry. -/
def referenceName (bound : BoundEntry) : String :=
  bound.table.referenceName

/-- The qualifier of a column reference means this entry. -/
def answersTo (bound : BoundEntry) (qualifier : String) : Bool :=
  Name.same bound.referenceName qualifier

end BoundEntry

end RelQuery
