import DecisionTree.Buffer.Marks
import DecisionTree.Column.Basic

/-!
# Partitioning a column

A column is cut into the examples whose ids stand in a buffer and the rest.  The ids
in the buffer are marked in a table over all ids; the column's own ids are gathered
entry by entry and looked up in the table.  The marks are taken back at once, so the
table is zero again whatever comes after.

An entry whose examples all go to one side is passed on as it is.  An entry that is
torn apart gets new histograms, added up in the order of its ids.  If the buffer
names an example that the column does not hold, or names one twice, the column is
not cut.
-/

namespace DecisionTree

variable {α : Type} [Scalar α]

/-- The label histogram of some examples. -/
def Targets.counts (targets : Targets α) (indices : List Int) : Except Error (List α) :=
  match indices.mapM targets.item? with
  | none => .error .outOfRange
  | some items => Histogram.ofItems targets.labelCount items

/-- What is left of an entry when only some of its examples stay. -/
def Entry.restrict (targets : Targets α) (entry : Entry α) (indices : List Int) :
    Except Error (Entry α) := do
  pure { entry with indices, counts := ← targets.counts indices }

/-- Deals entries out to two sides.  The marks say of every id in turn whether its
example goes to the left. -/
def dealEntries (targets : Targets α) :
    List (Entry α) → List Bool → Except Error (List (Entry α) × List (Entry α))
  | [], _ => .ok ([], [])
  | entry :: rest, marks => do
      let marked := entry.indices.zip (marks.take entry.size)
      let inside := (marked.filter Prod.snd).map Prod.fst
      let outside := (marked.filter (!·.2)).map Prod.fst
      if inside.length = entry.size then
        let (left, right) ← dealEntries targets rest (marks.drop entry.size)
        pure (entry :: left, right)
      else if inside.isEmpty then
        let (left, right) ← dealEntries targets rest (marks.drop entry.size)
        pure (left, entry :: right)
      else
        let kept ← entry.restrict targets inside
        let other ← entry.restrict targets outside
        let (left, right) ← dealEntries targets rest (marks.drop entry.size)
        pure (kept :: left, other :: right)

/-- The outcome of a partition: the two columns or an error, and the scratch buffers
as the partition leaves them. -/
structure Partition (α : Type) where
  sides : Except Error (Column α × Column α)
  gather : Buffer
  marks : Buffer

namespace Column

/-- A column with other entries. -/
def withEntries (column : Column α) (entries : List (Entry α)) : Column α :=
  { column with entries, pending := [] }

/-- The two sides of a column once the marks of its ids are known. -/
def deal (column : Column α) (chosen : Nat) (marks : List Bool) :
    Except Error (Column α × Column α) :=
  let present := marks.count true
  if present ≠ chosen then .error (.strayIds column.feature chosen present)
  else do
    let (left, right) ← dealEntries column.targets column.entries marks
    pure (column.withEntries left, column.withEntries right)

/-- Cuts a column into the examples named in `below` and the rest. -/
def partition (column : Column α) (below gather marks : Buffer) : Partition α :=
  let chosen := below.view
  let gather := gather.fill column.indices
  let gathered := gather.view
  let table := marks.grow (Buffer.tableSize gathered chosen)
  match table.assign? chosen 1 with
  | none => { sides := .error .outOfRange, gather, marks := table }
  | some marked =>
      match gathered.mapM marked.isMarked? with
      | none => { sides := .error .outOfRange, gather, marks := marked }
      | some found =>
          { sides := column.deal chosen.length found
            gather
            marks := (marked.assign? chosen 0).getD marked }

end Column

end DecisionTree
