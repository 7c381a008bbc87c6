import DecisionTree.Proofs.Growth.Conversion
import DecisionTree.Proofs.Growth.Course
import DecisionTree.Proofs.Growth.Nodes
import DecisionTree.Proofs.Report.Rules

/-!
# What every fitted tree is like

Whatever the dataset, the nodes of a growing forest are regular (`Node.Regular`): they are cut at
features that there are, and their histograms cover all labels.  So the tree that the forest is
converted to asks for features that there are only (`Forest.Every.treeWithin`), and its leaves
predict the first label with a largest share (`Node.Regular.toLeaf`).
-/

namespace DecisionTree

variable {α σ : Type} [Scalar α] {size width : Nat}

theorem Histogram.le_length_of_ofItems {minimum : Nat} {items : List (Int × α)} {counts : List α}
    (made : ofItems minimum items = .ok counts) : minimum ≤ counts.length := by
  unfold ofItems at made
  split at made
  next => cases made
  next =>
    obtain rfl := Except.ok.inj made
    rw [length_tally]
    exact List.foldlRecOn _ _ (Nat.le_refl minimum) fun _ atLeast _ _ =>
      Nat.le_trans atLeast (Nat.le_max_left _ _)

/-- The histogram of every entry covers a number of labels. -/
def CoverLabels (size : Nat) (entries : List (Entry α)) : Prop :=
  ∀ entry ∈ entries, size ≤ entry.counts.length

theorem Entry.le_length_restrict {targets : Targets α} {entry part : Entry α} {indices : List Int}
    (restricted : entry.restrict targets indices = .ok part) :
    targets.labelCount ≤ part.counts.length := by
  obtain ⟨counts, countsEq, same⟩ := Outcome.bind_eq_ok.mp restricted
  obtain rfl := Except.ok.inj same
  unfold Targets.counts at countsEq
  split at countsEq
  next => cases countsEq
  next => exact Histogram.le_length_of_ofItems countsEq

/-- Entries that are dealt out still cover all labels. -/
theorem CoverLabels.dealEntries {targets : Targets α} {entries left right : List (Entry α)}
    {marks : List Bool} (cover : CoverLabels targets.labelCount entries)
    (dealt : DecisionTree.dealEntries targets entries marks = .ok (left, right)) :
    CoverLabels targets.labelCount left ∧ CoverLabels targets.labelCount right := by
  induction entries generalizing marks left right with
  | nil =>
      obtain ⟨rfl, rfl⟩ := Prod.mk.inj (Except.ok.inj dealt)
      exact ⟨cover, cover⟩
  | cons entry rest ih =>
      obtain ⟨own, restCover⟩ := List.forall_mem_cons.mp cover
      rw [DecisionTree.dealEntries] at dealt
      simp only at dealt
      split at dealt
      next =>
        obtain ⟨⟨lefts, rights⟩, others, same⟩ := Outcome.bind_eq_ok.mp dealt
        obtain ⟨rfl, rfl⟩ := Prod.mk.inj (Except.ok.inj same)
        obtain ⟨leftCover, rightCover⟩ := ih restCover others
        exact ⟨List.forall_mem_cons.mpr ⟨own, leftCover⟩, rightCover⟩
      next =>
      split at dealt
      next =>
        obtain ⟨⟨lefts, rights⟩, others, same⟩ := Outcome.bind_eq_ok.mp dealt
        obtain ⟨rfl, rfl⟩ := Prod.mk.inj (Except.ok.inj same)
        obtain ⟨leftCover, rightCover⟩ := ih restCover others
        exact ⟨leftCover, List.forall_mem_cons.mpr ⟨own, rightCover⟩⟩
      next =>
        obtain ⟨kept, keptEq, dealt⟩ := Outcome.bind_eq_ok.mp dealt
        obtain ⟨other, otherEq, dealt⟩ := Outcome.bind_eq_ok.mp dealt
        obtain ⟨⟨lefts, rights⟩, others, same⟩ := Outcome.bind_eq_ok.mp dealt
        obtain ⟨rfl, rfl⟩ := Prod.mk.inj (Except.ok.inj same)
        obtain ⟨leftCover, rightCover⟩ := ih restCover others
        exact ⟨List.forall_mem_cons.mpr ⟨Entry.le_length_restrict keptEq, leftCover⟩,
          List.forall_mem_cons.mpr ⟨Entry.le_length_restrict otherEq, rightCover⟩⟩

/-- All histograms of a column cover a number of labels. -/
structure Column.Covers (size : Nat) (column : Column α) : Prop where
  labelCount_eq : column.targets.labelCount = size
  entries_cover : CoverLabels size column.entries

namespace Column.Covers

variable {column left right : Column α}

/-- Both sides of a column still cover all labels. -/
theorem partition (covers : column.Covers size) {below gather marks : Buffer}
    (parted : (column.partition below gather marks).sides = .ok (left, right)) :
    left.Covers size ∧ right.Covers size := by
  obtain ⟨rfl, cover⟩ := covers
  simp only [Column.partition] at parted
  split at parted
  next => cases parted
  next =>
  split at parted
  next => cases parted
  next =>
  simp only [Column.deal] at parted
  split at parted
  next => cases parted
  next =>
    obtain ⟨⟨lefts, rights⟩, dealt, same⟩ := Outcome.bind_eq_ok.mp parted
    obtain ⟨rfl, rfl⟩ := Prod.mk.inj (Except.ok.inj same)
    obtain ⟨leftCover, rightCover⟩ := cover.dealEntries dealt
    exact ⟨⟨rfl, leftCover⟩, ⟨rfl, rightCover⟩⟩

/-- So does the histogram of the whole column. -/
theorem le_length_counts (covers : column.Covers size) : size ≤ column.counts.length := by
  refine List.foldlRecOn (motive := fun total : List α => size ≤ total.length) _ _ ?_ ?_
  · rw [Histogram.length_zero, covers.labelCount_eq]
  · intro total atLeast entry member
    rw [Histogram.length_plus]
    exact Nat.le_min.mpr ⟨atLeast, covers.entries_cover entry member⟩

/-- A column of observations covers all labels. -/
theorem ofObservations {feature : Int} {targets : Targets α} {values : List α} {indices : List Int}
    (built : Column.ofObservations feature targets values indices = .ok column) :
    column.Covers targets.labelCount := by
  obtain ⟨observing, entries, rfl, grouped, rfl⟩ := Column.of_ofObservations built
  refine ⟨rfl, fun entry member => ?_⟩
  unfold Column.group at grouped
  split at grouped
  next => cases grouped
  next =>
  split at grouped
  next => cases grouped
  next =>
    obtain rfl := Except.ok.inj grouped
    obtain ⟨run, -, rfl⟩ := List.mem_map.mp member
    exact Nat.le_of_eq (Histogram.length_tally _ _).symm

end Column.Covers

namespace Growth

/-- There is a column for each feature, and all of them cover a number of labels. -/
structure AllCover (width size : Nat) (columns : List (Column α)) : Prop where
  length_eq : columns.length = width
  covers : ∀ column ∈ columns, column.Covers size

/-- Columns that are parted still cover all labels. -/
theorem AllCover.partitionAll {columns lefts rights : List (Column α)}
    (cover : AllCover width size columns) {workspace : Workspace}
    (parted : (partitionAll workspace columns).1 = .ok (lefts, rights)) :
    AllCover width size lefts ∧ AllCover width size rights := by
  induction columns generalizing width workspace lefts rights with
  | nil =>
      obtain ⟨rfl, rfl⟩ := Prod.mk.inj (Except.ok.inj parted)
      exact ⟨cover, cover⟩
  | cons column rest ih =>
      obtain ⟨own, restCovers⟩ := List.forall_mem_cons.mp cover.covers
      simp only [Growth.partitionAll] at parted
      split at parted
      next => cases parted
      next left right sides =>
      split at parted
      next others more after restParted =>
        obtain ⟨rfl, rfl⟩ := Prod.mk.inj (Except.ok.inj parted)
        obtain ⟨leftCovers, rightCovers⟩ := own.partition sides
        obtain ⟨leftsCover, rightsCover⟩ := ih ⟨rfl, restCovers⟩ (congrArg Prod.fst restParted)
        have length := cover.length_eq
        rw [List.length_cons] at length
        exact ⟨⟨by rw [List.length_cons, leftsCover.length_eq, length],
            List.forall_mem_cons.mpr ⟨leftCovers, leftsCover.covers⟩⟩,
          ⟨by rw [List.length_cons, rightsCover.length_eq, length],
            List.forall_mem_cons.mpr ⟨rightCovers, rightsCover.covers⟩⟩⟩
      next => cases parted

/-- A node has a column for each feature as long as it is live, it is cut at a feature that there
is, and all histograms cover a number of labels. -/
structure Node.Regular (width size : Nat) (node : Node α) : Prop where
  columns_cover : ∀ columns, node.columns = some columns → AllCover width size columns
  counts_cover : size ≤ node.counts.length
  cut_inside : ∀ cut, node.cut = some cut → 0 ≤ cut.feature ∧ cut.feature < width

namespace Node.Regular

variable {node : Node α} {columns : List (Column α)} {measure : Measure α} {best : Best α}
  {least : α} {workspace : Workspace}

omit [Scalar α] in
theorem release (regular : node.Regular width size) : node.release.Regular width size where
  columns_cover _ impossible := nomatch impossible
  counts_cover := regular.counts_cover
  cut_inside := regular.cut_inside

theorem ofColumns (cover : AllCover width size columns) (wide : 0 < width)
    (measure : Measure α) (exampleCount depth : Nat) :
    (Node.ofColumns measure columns exampleCount depth).Regular width size where
  columns_cover others same := Option.some.inj same ▸ cover
  counts_cover := by
    obtain ⟨column, rest, rfl⟩ := List.exists_cons_of_length_pos (cover.length_eq.symm ▸ wide)
    exact (cover.covers column List.mem_cons_self).le_length_counts
  cut_inside _ impossible := nomatch impossible

/-- Splitting a regular node at a feature that there is leaves regular nodes behind. -/
theorem splitAt (regular : node.Regular width size) (live : node.columns = some columns)
    {cut : Cut α} (inside : 0 ≤ cut.feature ∧ cut.feature < width) (column : Column α) :
    (node.splitAt measure columns cut column workspace).Every (Node.Regular width size) := by
  have cover := regular.columns_cover columns live
  have noted : ({ node with cut := some cut } : Node α).Regular width size :=
    ⟨regular.columns_cover, regular.counts_cover, fun _ same => Option.some.inj same ▸ inside⟩
  unfold Node.splitAt
  simp only
  split
  next error after failed => exact .of_error noted rfl
  next lefts rights after parted =>
    obtain ⟨leftsCover, rightsCover⟩ := cover.partitionAll (congrArg Prod.fst parted)
    have wide : 0 < width := by omega
    exact .of_pair noted.release rfl (ofColumns leftsCover wide _ _ _)
      (ofColumns rightsCover wide _ _ _)

/-- So does carrying out the best cut that was found. -/
theorem splitBest (regular : node.Regular width size) (live : node.columns = some columns)
    (justified : best.Justified measure node columns) :
    (node.splitBest measure columns best least workspace).Every (Node.Regular width size) := by
  unfold Node.splitBest
  split
  next => exact .of_nil regular.release rfl
  next cut cutEq =>
  obtain ⟨own, place, lower, upper, between, -⟩ := justified cut cutEq
  have inside : 0 ≤ cut.feature ∧ cut.feature < width := by
    have isColumn := (List.getElem?_eq_some_iff.mp between.column_eq).1
    rw [(regular.columns_cover columns live).length_eq] at isColumn
    have nonneg := between.nonneg
    omega
  split
  next =>
    split
    next => exact .of_error regular rfl
    next column looked => exact regular.splitAt live inside column
  next => exact .of_nil regular.release rfl

end Node.Regular

variable {policy : Policy α} {draws : Draws σ} {least : α}

/-- Growth keeps all nodes regular. -/
theorem kept_regular (bounded : draws.Bounded) :
    Kept policy draws width least (Node.Regular width size) where
  released _ := Node.Regular.release
  split node features source workspace regular known := by
    unfold Node.split
    split
    next => exact .of_error regular rfl
    next columns live =>
      have allKnown : Node.AllKnown columns features := by
        intro feature member
        rw [(regular.columns_cover columns live).length_eq]
        exact known feature member
      obtain ⟨found, searched, justified⟩ :=
        Node.search_justified policy.measure bounded live allKnown policy.splitter source
      rw [searched]
      exact regular.splitBest live justified

variable {dataset : Dataset α} {source : σ} {state : State α σ}

/-- Growth starts with a regular node, whatever the dataset. -/
theorem start_regular {measure : Measure α} (started : start measure dataset source = .ok state) :
    state.forest.Every (Node.Regular dataset.features.size dataset.labels.size) := by
  obtain ⟨columns, counts, columnsEq, countsEq, rfl⟩ := start_eq started
  obtain ⟨rows, -, built⟩ := Outcome.bind_eq_ok.mp columnsEq
  have cover : AllCover dataset.features.size dataset.labels.size columns := by
    refine ⟨?_, fun column member => ?_⟩
    · rw [← (Outcome.mapM_eq_ok.mp built).length_eq, List.length_range]
    · obtain ⟨feature, -, made⟩ := Outcome.exists_of_mem_mapM built column member
      exact Column.Covers.ofObservations made
  intro slot member
  obtain rfl := List.mem_singleton.mp member
  exact ⟨fun others same => Option.some.inj same ▸ cover,
    Histogram.le_length_of_ofItems countsEq, fun _ impossible => nomatch impossible⟩

/-- All nodes of a finished forest are regular, whatever the dataset. -/
theorem finish_regular (bounded : draws.Bounded) {root : State α σ}
    (started : start policy.measure dataset source = .ok root)
    (finished : finish policy draws dataset root = .ok state) :
    state.forest.Every (Node.Regular dataset.features.size dataset.labels.size) :=
  (start_regular started).grow (kept_regular bounded) finished

variable {labels : List Label} {leaf : Leaf α}

/-- A leaf predicts the first of the labels with a largest share. -/
def PredictsFirst (labels : List Label) (leaf : Leaf α) : Prop :=
  ∃ place : Nat, leaf.labelId = place ∧ labels[place]? = some leaf.label ∧
    Node.IsFirstLargest leaf.distribution place

/-- The leaf that a regular node becomes predicts the first label with a largest share. -/
theorem Node.Regular.toLeaf [Scalar.Ordered α] {node : Node α}
    (regular : node.Regular width labels.length) (made : node.toLeaf labels = .ok leaf) :
    PredictsFirst labels leaf := by
  simp only [Node.toLeaf] at made
  split at made
  next => cases made
  next label found =>
    obtain rfl := Except.ok.inj made
    refine ⟨_, rfl, found, Node.isFirstLargest_firstMaximum ?_⟩
    have isLabel := (List.getElem?_eq_some_iff.mp found).1
    apply List.ne_nil_of_length_pos
    rw [Node.length_distribution]
    exact Nat.lt_of_lt_of_le (Nat.zero_lt_of_lt isLabel) regular.counts_cover

/-- The tree that a forest of regular nodes is converted to asks for features that there are only,
and all of its leaves predict the first label with a largest share. -/
theorem Forest.Every.treeWithin [Scalar.Ordered α] {forest : Forest α}
    (every : forest.Every (Node.Regular width labels.length)) {steps : Nat} {id : Int}
    {tree : Tree α} (converted : forest.treeWithin labels steps id = .ok tree) :
    (tree.EverySplit fun feature _ => 0 ≤ feature ∧ feature < width) ∧
      ∀ path reached, tree.leafAt? path = some reached → PredictsFirst labels reached := by
  induction steps generalizing id tree with
  | zero => cases converted
  | succ steps ih =>
      obtain ⟨slot, found, converted⟩ := Outcome.bind_eq_ok.mp converted
      have regular := every slot (mem_of_slot found)
      split at converted
      next =>
        obtain ⟨leaf, made, same⟩ := Outcome.bind_eq_ok.mp converted
        obtain rfl := Except.ok.inj same
        refine ⟨trivial, fun path reached atEnd => ?_⟩
        cases path with
        | nil => exact Option.some.inj atEnd ▸ regular.toLeaf made
        | cons goesLeft path => cases atEnd
      next =>
        obtain ⟨left, leftEq, converted⟩ := Outcome.bind_eq_ok.mp converted
        obtain ⟨right, rightEq, converted⟩ := Outcome.bind_eq_ok.mp converted
        split at converted
        next => cases converted
        next cut cutEq =>
          obtain rfl := Except.ok.inj converted
          obtain ⟨leftInside, leftLeaves⟩ := ih leftEq
          obtain ⟨rightInside, rightLeaves⟩ := ih rightEq
          refine ⟨⟨regular.cut_inside cut cutEq, leftInside, rightInside⟩,
            fun path reached atEnd => ?_⟩
          match path with
          | [] => cases atEnd
          | true :: path => exact leftLeaves path reached atEnd
          | false :: path => exact rightLeaves path reached atEnd

end Growth

namespace Tree

variable {tree : Tree α}

omit [Scalar α] in
theorem EverySplit.imp {test weaker : Int → α → Prop}
    (imply : ∀ feature threshold, test feature threshold → weaker feature threshold)
    (every : tree.EverySplit test) : tree.EverySplit weaker := by
  induction tree with
  | leaf reached => trivial
  | split feature threshold impurity left right leftIh rightIh =>
      obtain ⟨own, lefts, rights⟩ := every
      exact ⟨imply feature threshold own, leftIh lefts, rightIh rights⟩

/-- An input reaches a leaf of a tree that asks for features of the input only. -/
theorem exists_leafFor? {input : List α}
    (inside : tree.EverySplit fun feature _ => 0 ≤ feature ∧ feature < input.length) :
    ∃ path reached, tree.leafAt? path = some reached ∧ tree.leafFor? input = some reached := by
  have covered : tree.EverySplit fun feature _ => (Position.get? input feature).isSome = true := by
    refine inside.imp fun feature threshold bounds => ?_
    obtain ⟨place, rfl⟩ := Int.eq_ofNat_of_zero_le bounds.1
    rw [Position.get?_ofNat, List.getElem?_eq_getElem (Int.ofNat_lt.mp bounds.2)]
    rfl
  obtain ⟨path, reached, taken, leaf⟩ := exists_route? covered
  exact ⟨path, reached, leaf, by rw [leafFor?_eq, taken, Option.bind_some, leaf]⟩

end Tree

end DecisionTree
