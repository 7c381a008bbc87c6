/-!
# Stable sorting

`sort` puts a list into an order that is given as a Boolean "less or equal", and keeps
elements that are equal in that order as they stand.  Each element is inserted before
the first one that it does not exceed, beginning with the last, so a list that is
sorted already costs one comparison for each element.

The result holds the same elements (`perm_sort`), and if the order is total and
transitive its elements ascend (`pairwise_sort`).
-/

namespace DecisionTree.Sorting

variable {β : Type}

/-- Inserts an element before the first one that it is less than or equal to. -/
def insert (inOrder : β → β → Bool) (value : β) : List β → List β
  | [] => [value]
  | first :: rest =>
      if inOrder value first then value :: first :: rest
      else first :: insert inOrder value rest

/-- The elements in ascending order; equal ones keep their order. -/
def sort (inOrder : β → β → Bool) (values : List β) : List β :=
  values.foldr (insert inOrder) []

theorem perm_insert (inOrder : β → β → Bool) (value : β) (values : List β) :
    (insert inOrder value values).Perm (value :: values) := by
  induction values with
  | nil => exact .refl _
  | cons first rest ih =>
      unfold insert
      split
      · exact .refl _
      · exact (ih.cons first).trans (.swap value first rest)

/-- Sorting neither loses nor adds anything. -/
theorem perm_sort (inOrder : β → β → Bool) (values : List β) :
    (sort inOrder values).Perm values := by
  induction values with
  | nil => exact .refl _
  | cons first rest ih => exact (perm_insert inOrder first _).trans (ih.cons first)

theorem pairwise_insert {inOrder : β → β → Bool}
    (total : ∀ left right, inOrder left right || inOrder right left)
    (trans : ∀ left middle right,
      inOrder left middle → inOrder middle right → inOrder left right)
    (value : β) {values : List β} (sorted : values.Pairwise (inOrder · ·)) :
    (insert inOrder value values).Pairwise (inOrder · ·) := by
  induction values with
  | nil => simp [insert]
  | cons first rest ih =>
      have ⟨below, sorted⟩ := List.pairwise_cons.mp sorted
      unfold insert
      split
      next before =>
        refine List.pairwise_cons.mpr ⟨fun other member => ?_, .cons below sorted⟩
        rcases List.mem_cons.mp member with rfl | member
        · exact before
        · exact trans _ _ _ before (below other member)
      next behind =>
        refine List.pairwise_cons.mpr ⟨fun other member => ?_, ih sorted⟩
        have member := (perm_insert inOrder value rest).mem_iff.mp member
        rcases List.mem_cons.mp member with rfl | member
        · simpa [behind] using total other first
        · exact below other member

/-- A total and transitive order is kept by all pairs of the sorted list. -/
theorem pairwise_sort {inOrder : β → β → Bool}
    (total : ∀ left right, inOrder left right || inOrder right left)
    (trans : ∀ left middle right,
      inOrder left middle → inOrder middle right → inOrder left right)
    (values : List β) : (sort inOrder values).Pairwise (inOrder · ·) := by
  induction values with
  | nil => exact .nil
  | cons first rest ih => exact pairwise_insert total trans first ih

end DecisionTree.Sorting
