import DecisionTree.Growth.Split
import DecisionTree.Proofs.Buffer.Merge
import DecisionTree.Proofs.Column.Tidy

/-!
# A split without its buffers

`Node.divide` says what splitting a node at a cut makes of its columns, given the ascending ids that
go to the left: every column is dealt out by the marks of its ids.  A workspace comes to the same
(`Node.splitAt_spec`), whatever it holds, as long as its table of marks is clean; and the table is
clean again afterwards.
-/

namespace DecisionTree.Growth

variable {α : Type} [Scalar α]

/-- All columns dealt out by the same ids. -/
def dealAll (chosen : List Int) :
    List (Column α) → Except Error (List (Column α) × List (Column α))
  | [] => .ok ([], [])
  | column :: rest => do
      let (left, right) ←
        column.deal chosen.length (column.indices.map fun id => decide (id ∈ chosen))
      let (lefts, rights) ← dealAll chosen rest
      pure (left :: lefts, right :: rights)

/-- All that an outcome does to the forest. -/
def Outcome.effect (outcome : Outcome α) : Node α × Except Error (List (Node α)) :=
  (outcome.node, outcome.children)

/-- What becomes of a node that is split at a cut, if the given ids go to the left. -/
def Node.divide (measure : Measure α) (node : Node α) (columns : List (Column α)) (cut : Cut α)
    (below : List Int) : Node α × Except Error (List (Node α)) :=
  match dealAll below columns with
  | .error error => ({ node with cut := some cut }, .error error)
  | .ok (lefts, rights) =>
      ({ node with cut := some cut, columns := none }, .ok
        [ofColumns measure lefts below.length (node.depth + 1),
          ofColumns measure rights (node.exampleCount - below.length) (node.depth + 1)])

variable {columns lefts rights : List (Column α)} {column : Column α} {chosen below : List Int}

/-- Columns dealt out are tidy if they were. -/
theorem tidy_of_dealAll (tidy : ∀ column ∈ columns, column.Tidy)
    (dealt : dealAll chosen columns = .ok (lefts, rights)) :
    (∀ column ∈ lefts, column.Tidy) ∧ ∀ column ∈ rights, column.Tidy := by
  induction columns generalizing lefts rights with
  | nil =>
      obtain ⟨rfl, rfl⟩ := Prod.mk.inj (Except.ok.inj dealt)
      exact ⟨fun _ member => (List.not_mem_nil member).elim,
        fun _ member => (List.not_mem_nil member).elim⟩
  | cons column rest ih =>
      obtain ⟨⟨left, right⟩, own, dealt⟩ := Outcome.bind_eq_ok.mp dealt
      obtain ⟨⟨others, more⟩, others, same⟩ := Outcome.bind_eq_ok.mp dealt
      obtain ⟨rfl, rfl⟩ := Prod.mk.inj (Except.ok.inj same)
      obtain ⟨leftTidy, rightTidy⟩ := (tidy column List.mem_cons_self).deal own
      obtain ⟨leftsTidy, rightsTidy⟩ :=
        ih (fun other member => tidy other (List.mem_cons_of_mem _ member)) others
      exact ⟨List.forall_mem_cons.mpr ⟨leftTidy, leftsTidy⟩,
        List.forall_mem_cons.mpr ⟨rightTidy, rightsTidy⟩⟩

/-- A workspace deals out the columns by the ids that it has collected, and its table of marks is
clean afterwards. -/
theorem partitionAll_spec (workspace : Workspace) (tidy : ∀ column ∈ columns, column.Tidy)
    (ascending : workspace.below.view.Pairwise (· < ·))
    (nonneg : ∀ id ∈ workspace.below.view, 0 ≤ id) (clean : workspace.marks.Clean) :
    (partitionAll workspace columns).1 = dealAll workspace.below.view columns ∧
      (partitionAll workspace columns).2.marks.Clean := by
  induction columns generalizing workspace with
  | nil => exact ⟨rfl, clean⟩
  | cons column rest ih =>
      obtain ⟨sides, cleanAgain⟩ := Column.partition_spec workspace.swap
        (tidy column List.mem_cons_self).nonneg (ascending.imp Int.le_of_lt) nonneg clean
      obtain ⟨restSides, restClean⟩ := ih
        { workspace with
          swap := (column.partition workspace.below workspace.swap workspace.marks).gather
          marks := (column.partition workspace.below workspace.swap workspace.marks).marks }
        (fun other member => tidy other (List.mem_cons_of_mem _ member)) ascending nonneg cleanAgain
      rw [partitionAll, dealAll, ← sides, ← restSides]
      simp only
      split
      next error failed =>
        rw [failed]
        exact ⟨rfl, cleanAgain⟩
      next left right divided =>
        rw [divided]
        split
        next others more after found =>
          rw [found] at restClean ⊢
          exact ⟨rfl, restClean⟩
        next error after found =>
          rw [found] at restClean ⊢
          exact ⟨rfl, restClean⟩

/-- No id is collected twice. -/
theorem sublist_idsBelow (column : Column α) (threshold : α) :
    (idsBelow column threshold).flatten.Sublist column.indices :=
  ((List.takeWhile_sublist _).map Entry.indices).flatten

namespace Node

variable {measure : Measure α} {node : Node α} {cut : Cut α} {workspace : Workspace}

/-- Splitting a node divides it by the ids below the threshold, whatever the buffers held before,
if the table of marks is clean; it is clean again afterwards. -/
theorem splitAt_spec (tidy : ∀ other ∈ columns, other.Tidy) (columnTidy : column.Tidy)
    (ascending : below.Pairwise (· < ·))
    (perm : below.Perm (idsBelow column cut.threshold).flatten) (clean : workspace.marks.Clean) :
    let outcome := node.splitAt measure columns cut column workspace
    outcome.effect = node.divide measure columns cut below ∧ outcome.workspace.marks.Clean := by
  have sublist := sublist_idsBelow column cut.threshold
  have sorted : ∀ list ∈ idsBelow column cut.threshold, list.Pairwise (· < ·) := by
    intro list member
    obtain ⟨entry, entryMember, rfl⟩ := List.mem_map.mp member
    exact columnTidy.sorted entry ((List.takeWhile_sublist _).subset entryMember)
  obtain ⟨collectedAscending, collected, size, marks⟩ := workspace.collectAll_spec sorted
    (columnTidy.nodup.sublist sublist)
  -- ascending lists of the same ids are the same
  have view : (workspace.collectAll (idsBelow column cut.threshold)).below.view = below :=
    (collected.trans perm.symm).eq_of_pairwise
      (fun _ _ _ _ less greater => absurd (Int.lt_trans less greater) (Int.lt_irrefl _))
      collectedAscending ascending
  have nonneg : ∀ id ∈ below, 0 ≤ id := fun id member =>
    columnTidy.nonneg id (sublist.subset (perm.mem_iff.mp member))
  rw [← marks] at clean
  obtain ⟨sides, cleanAfter⟩ := partitionAll_spec _ tidy collectedAscending
    (view.symm ▸ nonneg) clean
  rw [view] at sides
  rw [← perm.length_eq] at size
  simp only [splitAt, Outcome.effect, divide, ← sides]
  split
  next error after failed =>
    rw [failed] at cleanAfter ⊢
    exact ⟨rfl, cleanAfter⟩
  next leftColumns rightColumns after divided =>
    rw [divided] at cleanAfter ⊢
    rw [size]
    exact ⟨rfl, cleanAfter⟩

end Node

end DecisionTree.Growth
