import DecisionTree.Growth.Node

/-!
# All nodes of a growing tree

A forest numbers the nodes in the order in which they come into being; the first node
is the root.  A node that was split has a pair of children.  Ids given from outside
may count from the end.

Attaching children first looks at the parent's place, then appends the two children,
and then notes the pair at the parent's place in the longer list.
-/

namespace DecisionTree.Growth

/-- A node and the ids of its children. -/
structure Slot (α : Type) where
  node : Node α
  children : Option (Nat × Nat)

/-- Nodes by id. -/
structure Forest (α : Type) where
  slots : List (Slot α)

namespace Forest

variable {α : Type}

/-- A root alone. -/
def ofRoot (root : Node α) : Forest α where
  slots := [{ node := root, children := none }]

def size (forest : Forest α) : Nat :=
  forest.slots.length

/-- The slot of a node. -/
def slot (forest : Forest α) (id : Int) : Except Error (Slot α) :=
  match Position.get? forest.slots id with
  | some slot => .ok slot
  | none => .error .outOfRange

/-- Changes the slot of a node, if there is one. -/
def modify (forest : Forest α) (id : Int) (change : Slot α → Slot α) : Forest α :=
  match Position.resolve forest.size id with
  | some place => { slots := forest.slots.modify place change }
  | none => forest

/-- Replaces a node. -/
def setNode (forest : Forest α) (id : Int) (node : Node α) : Forest α :=
  forest.modify id fun slot => { slot with node }

/-- Adds the children that a split returned and gives their ids.  Without children
nothing happens; otherwise there have to be two, and the parent may have none yet. -/
def attach (forest : Forest α) (parent : Int) (children : List (Node α)) :
    Except Error (List Nat × Forest α) :=
  match children with
  | [] => .ok ([], forest)
  | [left, right] => do
      let slot ← forest.slot parent
      if slot.children.isSome then
        throw (.alreadySplit parent)
      let first := forest.size
      let longer : Forest α :=
        { slots := forest.slots ++
            [{ node := left, children := none }, { node := right, children := none }] }
      pure ([first, first + 1],
        longer.modify parent fun slot => { slot with children := some (first, first + 1) })
  | _ => .error .notTwoChildren

/-- The tree below a node, following at most `steps` generations of children. -/
def treeWithin [Scalar α] (labels : List Label) (forest : Forest α) :
    Nat → Int → Except Error (Tree α)
  | 0, _ => .error .pathUnfinished
  | steps + 1, id => do
      let slot ← forest.slot id
      match slot.children with
      | none => pure (.leaf (← slot.node.toLeaf labels))
      | some (left, right) =>
          let left ← forest.treeWithin labels steps left
          let right ← forest.treeWithin labels steps right
          match slot.node.cut with
          | none => throw .childrenWithoutSplit
          | some cut => pure (.split cut.feature cut.threshold slot.node.impurity left right)

/-- The finished tree below a node.  No path visits more nodes than there are. -/
def toTree [Scalar α] (labels : List Label) (forest : Forest α) (id : Int) :
    Except Error (Tree α) :=
  forest.treeWithin labels forest.size id

end Forest

end DecisionTree.Growth
