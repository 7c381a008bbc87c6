import DecisionTree.Error

/-!
# Rectangular arrays from nested lists

Numbers and labels arrive as lists of lists.  `Nested.grid` recognises the shape: a
single value, one line, a table of lines of equal length, or a block of more than
two dimensions, whose values are kept in one line.  Lists that fit no such shape are
ragged and are refused.
-/

namespace DecisionTree

/-- Values in nested lists.  `noRows width` is a table without rows whose rows would
have the given length. -/
inductive Nested (β : Type) where
  | one (value : β)
  | many (items : List (Nested β))
  | noRows (width : Nat)

/-- A rectangular array. -/
inductive Grid (β : Type) where
  | point (value : β)
  | line (values : List β)
  | table (width : Nat) (rows : List (List β))
  | block (shape : List Nat) (values : List β)

namespace Grid

variable {β : Type}

/-- The lengths of an array along its dimensions. -/
def shape : Grid β → List Nat
  | point _ => []
  | line values => [values.length]
  | table width rows => [rows.length, width]
  | block shape _ => shape

/-- The values of an array in one line, row by row. -/
def flat : Grid β → List β
  | point value => [value]
  | line values => values
  | table _ rows => rows.flatten
  | block _ values => values

/-- Puts arrays of one shape side by side along a new first dimension. -/
def stack (parts : List (Grid β)) : Except Error (Grid β) :=
  match parts with
  | [] => .ok (line [])
  | first :: _ =>
      if parts.any fun part => part.shape ≠ first.shape then .error .badValue
      else
        match first with
        | point _ => .ok (line (parts.filterMap fun | point value => some value | _ => none))
        | line values =>
            .ok (table values.length (parts.filterMap fun | line values => some values | _ => none))
        | _ => .ok (block (parts.length :: first.shape) (parts.flatMap flat))

end Grid

namespace Nested

variable {β : Type}

mutual

/-- The rectangular array that nested lists spell out. -/
def grid : Nested β → Except Error (Grid β)
  | one value => .ok (.point value)
  | noRows width => .ok (.table width [])
  | many items => do Grid.stack (← grids items)

/-- The arrays that the items of a list spell out. -/
def grids : List (Nested β) → Except Error (List (Grid β))
  | [] => .ok []
  | item :: rest => do
      let first ← item.grid
      let others ← grids rest
      pure (first :: others)

end

end Nested

end DecisionTree
