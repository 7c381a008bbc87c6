import DecisionTree.Tree
import Mathlib.Data.List.Nodup

/-!
# Paths through a tree

A path names a part of a tree: whether to go left at each split on the way.  `Tree.route?` is the
path that an input takes, `Tree.leafAt?` the leaf at the end of a path, and `Tree.leaves` lists all
leaves with their paths (`Tree.mem_leaves`), from left to right (`Tree.pairwise_leaves`).
`Tree.subtreeAt?` is whatever part is at the end of a path, and `Tree.addresses` lists the paths to
all parts.
-/

namespace DecisionTree

theorem Position.mem_of_get? {β : Type} {values : List β} {position : Int} {value : β}
    (found : get? values position = some value) : value ∈ values := by
  obtain ⟨place, -, found⟩ := Option.bind_eq_some_iff.mp found
  exact List.mem_of_getElem? found

namespace Tree

variable {α : Type}

/-- The path that an input takes, true for left; none if the input lacks a feature that is asked
for. -/
def route? [Scalar α] (input : List α) : Tree α → Option (List Bool)
  | .leaf _ => some []
  | .split feature threshold _ left right => do
      if Scalar.le (← Position.get? input feature) threshold then
        (left.route? input).map (true :: ·)
      else
        (right.route? input).map (false :: ·)

/-- The leaf at the end of a path. -/
def leafAt? : Tree α → List Bool → Option (Leaf α)
  | .leaf reached, [] => some reached
  | .split _ _ _ left _, true :: path => left.leafAt? path
  | .split _ _ _ _ right, false :: path => right.leafAt? path
  | _, _ => none

/-- The leaves of a tree with the paths to them. -/
def leaves : Tree α → List (List Bool × Leaf α)
  | .leaf reached => [([], reached)]
  | .split _ _ _ left right =>
      (left.leaves.map fun (path, reached) => (true :: path, reached)) ++
        right.leaves.map fun (path, reached) => (false :: path, reached)

/-- Two paths part at some split, where the first one goes left and the second one right. -/
def LeftOf (path other : List Bool) : Prop :=
  ∃ common rest others, path = common ++ true :: rest ∧ other = common ++ false :: others

/-- The leaves of a tree are what its paths lead to. -/
theorem mem_leaves {tree : Tree α} {path : List Bool} {reached : Leaf α} :
    (path, reached) ∈ tree.leaves ↔ tree.leafAt? path = some reached := by
  induction tree generalizing path with
  | leaf own =>
      cases path with
      | nil => simp [leaves, leafAt?, eq_comm]
      | cons goesLeft path => simp [leaves, leafAt?]
  | split feature threshold impurity left right leftIh rightIh =>
      cases path with
      | nil => simp [leaves, leafAt?]
      | cons goesLeft path => cases goesLeft <;> simp [leaves, leafAt?, ← leftIh, ← rightIh]

theorem LeftOf.cons {path other : List Bool} (leftOf : LeftOf path other) (goesLeft : Bool) :
    LeftOf (goesLeft :: path) (goesLeft :: other) := by
  obtain ⟨common, rest, others, rfl, rfl⟩ := leftOf
  exact ⟨goesLeft :: common, rest, others, rfl, rfl⟩

/-- The leaves are listed from left to right. -/
theorem pairwise_leaves (tree : Tree α) :
    (tree.leaves.map Prod.fst).Pairwise LeftOf := by
  induction tree with
  | leaf reached => exact List.pairwise_singleton _ _
  | split feature threshold impurity left right leftIh rightIh =>
      rw [leaves, List.map_append, List.map_map, List.map_map, List.pairwise_append]
      rw [List.pairwise_map] at leftIh rightIh ⊢
      rw [List.pairwise_map]
      refine ⟨leftIh.imp fun leftOf => leftOf.cons true,
        rightIh.imp fun leftOf => leftOf.cons false, ?_⟩
      intro path isLeft other isRight
      obtain ⟨leaf, -, rfl⟩ := List.mem_map.mp isLeft
      obtain ⟨last, -, rfl⟩ := List.mem_map.mp isRight
      exact ⟨[], leaf.1, last.1, rfl, rfl⟩

theorem length_leaves (tree : Tree α) : tree.leaves.length = tree.leafCount := by
  induction tree with
  | leaf reached => rfl
  | split feature threshold impurity left right leftIh rightIh =>
      rw [leaves, List.length_append, List.length_map, List.length_map, leftIh, rightIh, leafCount]

/-! ## Parts and their addresses -/

section Parts

variable {tree : Tree α} {path : List Bool}

/-- The part of a tree at the end of a path. -/
def subtreeAt? : Tree α → List Bool → Option (Tree α)
  | tree, [] => some tree
  | .split _ _ _ left _, true :: path => left.subtreeAt? path
  | .split _ _ _ _ right, false :: path => right.subtreeAt? path
  | .leaf _, _ :: _ => none

/-- A longer path leads to a part of the part that its beginning leads to. -/
theorem subtreeAt?_append (tree : Tree α) (path rest : List Bool) :
    tree.subtreeAt? (path ++ rest) =
      (tree.subtreeAt? path).bind fun part => part.subtreeAt? rest := by
  induction path generalizing tree with
  | nil => cases tree <;> rfl
  | cons goesLeft path ih =>
      cases tree with
      | leaf reached => cases goesLeft <;> rfl
      | split feature threshold impurity left right =>
          cases goesLeft with
          | true => exact ih left
          | false => exact ih right

/-- A leaf is the part at the end of its path. -/
theorem subtreeAt?_of_leafAt? {reached : Leaf α} (found : tree.leafAt? path = some reached) :
    tree.subtreeAt? path = some (.leaf reached) := by
  induction tree generalizing path with
  | leaf own =>
      cases path with
      | nil => exact congrArg (Option.map Tree.leaf) found
      | cons goesLeft path => cases found
  | split feature threshold impurity left right leftIh rightIh =>
      cases path with
      | nil => cases found
      | cons goesLeft path =>
          cases goesLeft with
          | true => exact leftIh found
          | false => exact rightIh found

/-- The addresses of all parts of a tree. -/
def addresses : Tree α → List (List Bool)
  | .leaf _ => [[]]
  | .split _ _ _ left right =>
      [] :: (left.addresses.map (true :: ·) ++ right.addresses.map (false :: ·))

theorem mem_addresses : path ∈ tree.addresses ↔ (tree.subtreeAt? path).isSome = true := by
  induction tree generalizing path with
  | leaf reached =>
      cases path with
      | nil => simp [addresses, subtreeAt?]
      | cons goesLeft path => simp [addresses, subtreeAt?]
  | split feature threshold impurity left right leftIh rightIh =>
      cases path with
      | nil => simp [addresses, subtreeAt?]
      | cons goesLeft path => cases goesLeft <;> simp [addresses, subtreeAt?, leftIh, rightIh]

theorem nodup_addresses (tree : Tree α) : tree.addresses.Nodup := by
  induction tree with
  | leaf reached => exact List.nodup_singleton []
  | split feature threshold impurity left right leftIh rightIh =>
      have below := leftIh.map (List.cons_injective (a := true))
      have above := rightIh.map (List.cons_injective (a := false))
      rw [addresses, List.nodup_cons, List.nodup_append]
      refine ⟨by simp, below, above, ?_⟩
      intro first firstMember second secondMember same
      obtain ⟨path, -, rfl⟩ := List.mem_map.mp firstMember
      obtain ⟨other, -, rfl⟩ := List.mem_map.mp secondMember
      cases same

/-- A tree has one part less than twice its leaves. -/
theorem length_addresses (tree : Tree α) : tree.addresses.length + 1 = 2 * tree.leafCount := by
  induction tree with
  | leaf reached => rfl
  | split feature threshold impurity left right leftIh rightIh =>
      simp only [addresses, leafCount, List.length_cons, List.length_append, List.length_map]
      omega

theorem length_le_depth (member : path ∈ tree.addresses) : path.length ≤ tree.depth := by
  induction tree generalizing path with
  | leaf reached =>
      obtain rfl := List.mem_singleton.mp member
      exact Nat.le_refl 0
  | split feature threshold impurity left right leftIh rightIh =>
      rw [depth]
      rcases List.mem_cons.mp member with rfl | member
      · exact Nat.zero_le _
      rcases List.mem_append.mp member with isLeft | isRight
      · obtain ⟨rest, restMember, rfl⟩ := List.mem_map.mp isLeft
        have := leftIh restMember
        rw [List.length_cons]
        omega
      · obtain ⟨rest, restMember, rfl⟩ := List.mem_map.mp isRight
        have := rightIh restMember
        rw [List.length_cons]
        omega

/-- Some part is as deep as the tree. -/
theorem exists_deepest (tree : Tree α) : ∃ path ∈ tree.addresses, path.length = tree.depth := by
  induction tree with
  | leaf reached => exact ⟨[], List.mem_singleton_self [], rfl⟩
  | split feature threshold impurity left right leftIh rightIh =>
      obtain ⟨below, belowMember, belowDepth⟩ := leftIh
      obtain ⟨above, aboveMember, aboveDepth⟩ := rightIh
      rcases Nat.le_total right.depth left.depth with shallow | shallow
      · refine ⟨true :: below, ?_, ?_⟩
        · exact List.mem_cons_of_mem _ (List.mem_append_left _ (List.mem_map_of_mem belowMember))
        · rw [List.length_cons, belowDepth, depth, Nat.max_eq_left shallow, Nat.add_comm]
      · refine ⟨false :: above, ?_, ?_⟩
        · exact List.mem_cons_of_mem _ (List.mem_append_right _ (List.mem_map_of_mem aboveMember))
        · rw [List.length_cons, aboveDepth, depth, Nat.max_eq_right shallow, Nat.add_comm]

end Parts

variable [Scalar α]

/-- An input reaches the leaf at the end of its path. -/
theorem leafFor?_eq (input : List α) (tree : Tree α) :
    tree.leafFor? input = (tree.route? input).bind tree.leafAt? := by
  induction tree with
  | leaf reached => rfl
  | split feature threshold impurity left right leftIh rightIh =>
      rw [leafFor?, route?, leftIh, rightIh]
      cases Position.get? input feature with
      | none => rfl
      | some value =>
          simp only [bind, Option.bind_some]
          split
          · cases left.route? input <;> rfl
          · cases right.route? input <;> rfl

/-- The first step of a path through a split. -/
theorem route?_split {input : List α} {feature : Int} {threshold impurity value : α}
    {left right : Tree α} (found : Position.get? input feature = some value) (goesLeft : Bool)
    (path : List Bool) :
    (split feature threshold impurity left right).route? input = some (goesLeft :: path) ↔
      Scalar.le value threshold = goesLeft ∧
        (if goesLeft then left else right).route? input = some path := by
  simp only [route?, found, bind, Option.bind_some]
  cases Scalar.le value threshold <;> cases goesLeft <;> simp

end Tree

end DecisionTree
