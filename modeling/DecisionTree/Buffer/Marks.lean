import DecisionTree.Buffer.Basic

/-!
# A buffer as a table of marks

The storage of a buffer can serve as a table with one cell for each example id.  All
cells are zero until some ids are marked; marking the same ids with zero again undoes
it.  Ids may count from the end of the table.
-/

namespace DecisionTree.Buffer

/-- The number of cells that a table needs for the ids to be looked up and for the ids to
be marked, of which the last counts as the largest. -/
def tableSize (looked marked : List Int) : Nat :=
  let top := (looked.max?.map (· + 1)).getD 0
  ((marked.getLast?.map (· + 1)).elim top (max top)).toNat

/-- Writes one value at each of some ids; nothing is written if an id lies outside the
table. -/
def assign? (buffer : Buffer) (ids : List Int) (value : Int) : Option Buffer :=
  (ids.mapM (Position.resolve buffer.capacity)).map fun places =>
    buffer.writeAll (places.map fun place => (place, value))

/-- Whether an id is marked with a one. -/
def isMarked? (buffer : Buffer) (id : Int) : Option Bool := do
  let value ← buffer.storage[← Position.resolve buffer.capacity id]?
  pure (value == 1)

end DecisionTree.Buffer
