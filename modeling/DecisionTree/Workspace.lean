import DecisionTree.Buffer.Merge

/-!
# The scratch memory of one worker

Splitting a node needs three buffers.  Two of them take turns: each list of ids that
goes to the left is merged from one into the other.  The third is a table of marks
over all example ids, which is zero between splits.
-/

namespace DecisionTree

/-- The buffers that one worker reuses for all its splits. -/
structure Workspace where
  /-- The ids collected so far. -/
  below : Buffer
  /-- The buffer that the next merge writes. -/
  swap : Buffer
  /-- The table of marks; its storage counts, not its size. -/
  marks : Buffer
  deriving DecidableEq, Repr

namespace Workspace

def ofCapacity (capacity : Int) : Workspace where
  below := .ofCapacity capacity
  swap := .ofCapacity capacity
  marks := .ofCapacity capacity

/-- A workspace of the default capacity. -/
def fresh : Workspace :=
  ofCapacity Buffer.defaultCapacity

/-- Takes the two turn-taking buffers out of use. -/
def reset (workspace : Workspace) : Workspace :=
  { workspace with below := workspace.below.clear, swap := workspace.swap.clear }

/-- Merges one list of ids into the collection; the two buffers swap their parts. -/
def collect (workspace : Workspace) (ids : List Int) : Workspace :=
  { workspace with
    below := workspace.below.mergeInto ids workspace.swap
    swap := workspace.below }

/-- Collects lists of ids from nothing. -/
def collectAll (workspace : Workspace) (lists : List (List Int)) : Workspace :=
  lists.foldl collect workspace.reset

end Workspace

end DecisionTree
