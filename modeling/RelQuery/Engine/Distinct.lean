import RelQuery.Codec.Value

/-!
# Duplicate removal

Of rows that are written alike only the first is kept.  The key of a row is the record of its
values, one after the other.
-/

namespace RelQuery

/-- The record of a row. -/
def writeRow : Row → Written
  | [] => .ofBytes []
  | value :: rest => value.encode ++ writeRow rest

/-- The key under which equal rows coincide. -/
def rowKey (row : Row) : Result (List UInt8) :=
  (writeRow row).complete.mapError fun fault => .fault (.codec fault)

/-- A row with its key. -/
def keyed (row : Row) : Result (List UInt8 × Row) :=
  (rowKey row).map fun key => (key, row)

/-- The rows whose key was not seen before. -/
def firstOfKeys (seen : List (List UInt8)) : List (List UInt8 × Row) → List Row
  | [] => []
  | (key, row) :: rest =>
    if seen.contains key then firstOfKeys seen rest else row :: firstOfKeys (key :: seen) rest

/-- The first occurrence of every distinct row. -/
def distinctRows (rows : List Row) : Result (List Row) :=
  (rows.mapM keyed).map (firstOfKeys [])

end RelQuery
