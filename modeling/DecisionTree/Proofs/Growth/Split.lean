import DecisionTree.Proofs.Growth.Dealing
import DecisionTree.Proofs.Growth.Search
import Mathlib.Data.List.Flatten

/-!
# What carrying out a split does

`ColumnsOf` says that columns hold the values of the same examples, one column for each
feature.  Splitting a node with such columns at an accepted cut divides every one of them
between the examples below the threshold and the others (`splitAt_eq`).  The buffers of the
workspace have no influence on the result, except that its table of marks has to be clean
before and is clean again afterwards.
-/

namespace DecisionTree

variable {α σ : Type} [Scalar α]

/-- Columns that hold the values of the given examples, one for each feature. -/
structure ColumnsOf (targets : Targets α) (value : Nat → Int → α) (width : Nat) (ids : List Int)
    (columns : List (Column α)) : Prop where
  length_eq : columns.length = width
  feature_eq : ∀ (feature : Nat) (column : Column α),
    columns[feature]? = some column → column.feature = feature
  describes : ∀ (feature : Nat) (column : Column α),
    columns[feature]? = some column → column.Describes targets (value feature) ids

namespace Column

variable {targets : Targets α} {value : Int → α} {ids : List Int} {column : Column α}

omit [Scalar α] in
theorem mem_indices_of_mem {entry : Entry α} (member : entry ∈ column.entries) {id : Int}
    (idMember : id ∈ entry.indices) : id ∈ column.indices :=
  List.mem_flatMap.mpr ⟨entry, member, idMember⟩

/-- What is kept depends on the choice among the column's own examples only. -/
theorem keep_congr {first second : Int → Bool}
    (same : ∀ id ∈ column.indices, first id = second id) :
    column.keep first = column.keep second := by
  unfold keep
  congr 1
  apply List.filterMap_congr
  intro entry member
  have filtered : entry.indices.filter first = entry.indices.filter second := by
    apply List.filter_congr
    intro id idMember
    exact same id (mem_indices_of_mem member idMember)
  simp only [Entry.keep, filtered]

end Column

namespace ColumnsOf

variable {targets : Targets α} {value : Nat → Int → α} {width : Nat} {ids : List Int}
variable {columns : List (Column α)}

theorem keep (columnsOf : ColumnsOf targets value width ids columns) (chosen : Int → Bool) :
    ColumnsOf targets value width (ids.filter chosen) (columns.map (Column.keep chosen)) where
  length_eq := by
    rw [List.length_map]
    exact columnsOf.length_eq
  feature_eq := by
    intro feature part found
    rw [List.getElem?_map] at found
    obtain ⟨column, columnFound, rfl⟩ := Option.map_eq_some_iff.mp found
    exact columnsOf.feature_eq feature column columnFound
  describes := by
    intro feature part found
    rw [List.getElem?_map] at found
    obtain ⟨column, columnFound, rfl⟩ := Option.map_eq_some_iff.mp found
    exact (columnsOf.describes feature column columnFound).keep chosen

theorem congr (columnsOf : ColumnsOf targets value width ids columns) {others : List Int}
    (perm : ids.Perm others) : ColumnsOf targets value width others columns where
  length_eq := columnsOf.length_eq
  feature_eq := columnsOf.feature_eq
  describes feature column found := (columnsOf.describes feature column found).congr perm

theorem exists_describes (columnsOf : ColumnsOf targets value width ids columns) :
    ∀ column ∈ columns, ∃ feature, column.Describes targets (value feature) ids := by
  intro column member
  obtain ⟨feature, found⟩ := List.getElem?_of_mem member
  exact ⟨feature, columnsOf.describes feature column found⟩

end ColumnsOf

namespace Growth

/-- In a list in which whatever fails a test is followed by failures only, the first elements
that pass are all that pass. -/
theorem takeWhile_eq_filter {β : Type} {test : β → Bool} {values : List β}
    (ordered : values.Pairwise fun left right => test right = true → test left = true) :
    values.takeWhile test = values.filter test := by
  induction values with
  | nil => rfl
  | cons first rest ih =>
      have ⟨head, tail⟩ := List.pairwise_cons.mp ordered
      cases passes : test first with
      | true => rw [List.takeWhile_cons_of_pos passes, List.filter_cons_of_pos passes, ih tail]
      | false =>
          have failed : ¬ test first = true := by simp [passes]
          rw [List.takeWhile_cons_of_neg failed, List.filter_cons_of_neg failed]
          refine (List.filter_eq_nil_iff.mpr fun other member => ?_).symm
          intro otherPasses
          exact failed (head other member otherPasses)

variable {targets : Targets α} {value : Int → α} {ids : List Int} {column : Column α}

/-- Whether the value of an example is below a threshold: the threshold is not less than or
equal to it. -/
def goesLeft (threshold : α) (value : Int → α) (id : Int) : Bool :=
  !Scalar.le threshold (value id)

section Ordered

variable [Scalar.Ordered α]

/-- The entries below a threshold come first. -/
theorem idsBelow_eq (describes : column.Describes targets value ids) (threshold : α) :
    idsBelow column threshold =
      (column.entries.filter fun entry => !Scalar.le threshold entry.value).map
        Entry.indices := by
  rw [idsBelow, takeWhile_eq_filter]
  refine describes.ascending.imp ?_
  intro left right less rightBelow
  cases above : Scalar.le threshold left.value with
  | false => rfl
  | true =>
      have := Scalar.Ordered.le_of_lt (Scalar.Ordered.lt_of_le_of_lt above less)
      simp [this] at rightBelow

/-- The collected ids are those of the examples below the threshold. -/
theorem mem_idsBelow (describes : column.Describes targets value ids) {threshold : α} {id : Int} :
    id ∈ (idsBelow column threshold).flatten ↔
      id ∈ ids ∧ goesLeft threshold value id = true := by
  rw [idsBelow_eq describes, ← describes.mem_iff]
  simp only [List.mem_flatten, List.mem_map, List.mem_filter, goesLeft]
  constructor
  · rintro ⟨indices, ⟨entry, ⟨member, below⟩, rfl⟩, idMember⟩
    refine ⟨⟨entry, member, idMember⟩, ?_⟩
    rwa [Scalar.Ordered.le_congr_right (describes.valued entry member id idMember)]
  · rintro ⟨⟨entry, member, idMember⟩, below⟩
    refine ⟨entry.indices, ⟨entry, ⟨member, ?_⟩, rfl⟩, idMember⟩
    rwa [← Scalar.Ordered.le_congr_right (describes.valued entry member id idMember)]

end Ordered

/-- All columns over the same examples are dealt out alike. -/
theorem dealAll_eq {count : Nat} {columns : List (Column α)} {chosen : List Int}
    (known : targets.Known count) (distinct : ids.Nodup) (inRange : Targets.InRange count ids)
    (chosenDistinct : chosen.Nodup) (subset : ∀ id ∈ chosen, id ∈ ids)
    (describes : ∀ column ∈ columns, ∃ value, column.Describes targets value ids) :
    dealAll chosen columns =
      .ok (columns.map (Column.keep fun id => decide (id ∈ chosen)),
        columns.map (Column.keep fun id => !decide (id ∈ chosen))) := by
  induction columns with
  | nil => rfl
  | cons column rest ih =>
      obtain ⟨value, own⟩ := describes column List.mem_cons_self
      rw [dealAll, Column.deal_eq (known.knows inRange) own distinct chosenDistinct subset,
        ih fun other member => describes other (List.mem_cons_of_mem _ member)]
      rfl

namespace Node

/-- The child that holds some of the examples of a node. -/
def part (measure : Measure α) (node : Node α) (columns : List (Column α)) (chosen : Int → Bool)
    (count : Nat) : Node α :=
  ofColumns measure (columns.map (Column.keep chosen)) count (node.depth + 1)

variable [Scalar.Ordered α]
variable {values : Nat → Int → α} {count width : Nat} {columns : List (Column α)}
variable {measure : Measure α} {node : Node α} {cut : Cut α} {workspace : Workspace}

/-- Splitting a node at a cut divides every column between the examples below the threshold
and the others. -/
theorem splitAt_eq (measure : Measure α) (node : Node α) (known : targets.Known count)
    (columnsOf : ColumnsOf targets values width ids columns) (distinct : ids.Nodup)
    (inRange : Targets.InRange count ids) (found : columns[cut.feature.toNat]? = some column)
    (clean : workspace.marks.Clean) :
    let goes := goesLeft cut.threshold (values cut.feature.toNat)
    let outcome := node.splitAt measure columns cut column workspace
    outcome.workspace.marks.Clean ∧
      outcome.node = { node with cut := some cut, columns := none } ∧
      outcome.children = .ok
        [node.part measure columns goes (ids.filter goes).length,
          node.part measure columns (fun id => !goes id)
            (node.exampleCount - (ids.filter goes).length)] := by
  intro goes
  have describes := columnsOf.describes _ _ found
  have sublist := sublist_idsBelow column cut.threshold
  have belowDistinct : (idsBelow column cut.threshold).flatten.Nodup :=
    (describes.perm.nodup_iff.mpr distinct).sublist sublist
  obtain ⟨below, ascending, perm⟩ := exists_ascending_perm belowDistinct
  have mem_below : ∀ id, id ∈ below ↔ id ∈ ids ∧ goes id = true := by
    intro id
    rw [perm.mem_iff]
    exact mem_idsBelow describes
  have allDescribe : ∀ other ∈ columns, ∃ value, other.Describes targets value ids := by
    intro other member
    obtain ⟨feature, own⟩ := columnsOf.exists_describes other member
    exact ⟨_, own⟩
  have tidy : ∀ other ∈ columns, other.Tidy := by
    intro other member
    obtain ⟨value, own⟩ := allDescribe other member
    exact own.tidy distinct inRange
  obtain ⟨effect, cleanAfter⟩ := splitAt_spec tidy (tidy column (List.mem_of_getElem? found))
    ascending perm clean
  have dealt := dealAll_eq known distinct inRange ascending.nodup
    (fun id member => ((mem_below id).mp member).1) allDescribe
  have counted : below.length = (ids.filter goes).length := by
    apply List.Perm.length_eq
    refine (List.perm_ext_iff_of_nodup ascending.nodup (distinct.filter _)).mpr fun id => ?_
    rw [List.mem_filter]
    exact mem_below id
  -- among the examples of the node, the collected ids are those that go to the left
  have agree : ∀ other ∈ columns, ∀ id ∈ other.indices, decide (id ∈ below) = goes id := by
    intro other member id idMember
    obtain ⟨feature, own⟩ := columnsOf.exists_describes other member
    have held : id ∈ ids := own.perm.mem_iff.mp idMember
    rw [Bool.eq_iff_iff, decide_eq_true_eq, mem_below]
    exact ⟨And.right, fun left => ⟨held, left⟩⟩
  have lefts : columns.map (Column.keep fun id => decide (id ∈ below)) =
      columns.map (Column.keep goes) := by
    apply List.map_congr_left
    intro other member
    exact Column.keep_congr (agree other member)
  have rights : columns.map (Column.keep fun id => !decide (id ∈ below)) =
      columns.map (Column.keep fun id => !goes id) := by
    apply List.map_congr_left
    intro other member
    exact Column.keep_congr fun id idMember => by rw [agree other member id idMember]
  rw [lefts, rights] at dealt
  simp only [divide, dealt, counted] at effect
  obtain ⟨nodeEq, childrenEq⟩ := Prod.mk.inj effect
  exact ⟨cleanAfter, nodeEq, childrenEq⟩

end Node

/-- The cut that a search came to, if it lowers the impurity enough. -/
def Best.accepted (node : Node α) (least : α) (best : Best α) : Option (Cut α) :=
  best.cut.filter fun _ => Scalar.le least (node.decrease best.score)

/-- An accepted cut of a node: it lies between two entries of a column, and what was scored
there lowers the impurity enough. -/
structure Division (measure : Measure α) (least : α) (node : Node α) (columns : List (Column α))
    (cut : Cut α) (column : Column α) (place : Nat) (lower upper : Entry α) : Prop where
  between : cut.Between columns column place lower upper
  scored : ∃ score, Scored measure node column place score ∧
    Scalar.le least (node.decrease score) = true

/-- What was scored at a boundary lowers the impurity of a node enough. -/
def Rewarded (measure : Measure α) (least : α) (node : Node α) (column : Column α) (place : Nat) :
    Prop :=
  ∃ score, Weighed measure node column place score ∧
    Scalar.le least (node.decrease score) = true

variable {measure : Measure α} {node : Node α} {columns : List (Column α)} {cut : Cut α}
variable {best : Best α} {least : α}

/-- Whether a cut is accepted depends on the statistics of a node only. -/
theorem Division.congr {place : Nat} {lower upper : Entry α} {other : Node α}
    (division : Division measure least node columns cut column place lower upper)
    (counts : other.counts = node.counts) (impurity : other.impurity = node.impurity) :
    Division measure least other columns cut column place lower upper where
  between := division.between
  scored := by
    obtain ⟨score, ⟨greater, scored⟩, enough⟩ := division.scored
    refine ⟨score, ⟨greater, ?_⟩, ?_⟩
    · rw [Node.weightSum, counts]
      exact scored
    · rw [Node.decrease, Node.weightSum, counts, impurity]
      exact enough

theorem Rewarded.congr {place : Nat} {other : Node α}
    (rewarded : Rewarded measure least node column place) (counts : other.counts = node.counts)
    (impurity : other.impurity = node.impurity) : Rewarded measure least other column place := by
  obtain ⟨score, ⟨greater, isGreater, scored⟩, enough⟩ := rewarded
  refine ⟨score, ⟨greater, ?_, ?_⟩, ?_⟩
  · rwa [counts]
  · rwa [Node.weightSum, counts]
  · rwa [Node.decrease, Node.weightSum, counts, impurity]

/-- An accepted cut that is justified divides the node. -/
theorem Best.Justified.division (justified : best.Justified measure node columns)
    (accepted : best.accepted node least = some cut) :
    ∃ column place lower upper,
      Division measure least node columns cut column place lower upper ∧
        Rewarded measure least node column place := by
  obtain ⟨found, enough⟩ := Option.filter_eq_some_iff.mp accepted
  obtain ⟨column, place, lower, upper, between, weighed⟩ := justified cut found
  exact ⟨column, place, lower, upper, ⟨between, best.score, weighed.scored, enough⟩, best.score,
    weighed, enough⟩

/-- The ways in which the search of a node ends: without a split, or with a division of all
columns between the examples below the threshold of an accepted cut and the others. -/
inductive Ending (values : Nat → Int → α) (ids : List Int) (measure : Measure α) (least : α)
    (node : Node α) (columns : List (Column α)) (outcome : Outcome α) : Prop where
  | settled (node_eq : outcome.node = node.release) (children_eq : outcome.children = .ok [])
  | divided (cut : Cut α) (column : Column α) (place : Nat) (lower upper : Entry α)
      (division : Division measure least node columns cut column place lower upper)
      (rewarded : Rewarded measure least node column place)
      (node_eq : outcome.node = { node with cut := some cut, columns := none })
      (children_eq : outcome.children = .ok
        [node.part measure columns (goesLeft cut.threshold (values cut.feature.toNat))
            (ids.filter (goesLeft cut.threshold (values cut.feature.toNat))).length,
          node.part measure columns
            (fun id => !goesLeft cut.threshold (values cut.feature.toNat) id)
            (node.exampleCount -
              (ids.filter (goesLeft cut.threshold (values cut.feature.toNat))).length)])

/-- What never changes of a node: all but its columns and its cut. -/
def Node.statistics (node : Node α) : Node α :=
  { node with columns := none, cut := none }

omit [Scalar α] in
@[simp] theorem Node.depth_statistics (node : Node α) : node.statistics.depth = node.depth :=
  rfl

omit [Scalar α] in
@[simp] theorem Node.statistics_release (node : Node α) :
    node.release.statistics = node.statistics :=
  rfl

omit [Scalar α] in
theorem Node.depth_congr {node other : Node α} (same : node.statistics = other.statistics) :
    node.depth = other.depth := by
  rw [← Node.depth_statistics, same, Node.depth_statistics]

omit [Scalar α] in
theorem Node.counts_congr {node other : Node α} (same : node.statistics = other.statistics) :
    node.counts = other.counts := by
  have counts : node.statistics.counts = other.statistics.counts := by rw [same]
  exact counts

omit [Scalar α] in
theorem Node.impurity_congr {node other : Node α} (same : node.statistics = other.statistics) :
    node.impurity = other.impurity := by
  have impurity : node.statistics.impurity = other.statistics.impurity := by rw [same]
  exact impurity

namespace Ending

variable {values : Nat → Int → α} {outcome : Outcome α}

/-- A search changes the columns and the cut of a node only. -/
theorem statistics_eq (ending : Ending values ids measure least node columns outcome) :
    outcome.node.statistics = node.statistics := by
  cases ending with
  | settled nodeEq => rw [nodeEq, Node.statistics_release]
  | divided cut column place lower upper division rewarded nodeEq => rw [nodeEq]; rfl

/-- A child was not searched yet and is one level deeper. -/
theorem of_mem_children (ending : Ending values ids measure least node columns outcome)
    {children : List (Node α)} (childrenEq : outcome.children = .ok children) {child : Node α}
    (member : child ∈ children) : child.cut = none ∧ child.depth = node.depth + 1 := by
  cases ending with
  | settled nodeEq none =>
      obtain rfl := Except.ok.inj (none.symm.trans childrenEq)
      cases member
  | divided cut column place lower upper division rewarded nodeEq parts =>
      obtain rfl := Except.ok.inj (parts.symm.trans childrenEq)
      rcases List.mem_pair.mp member with rfl | rfl
      · exact ⟨rfl, rfl⟩
      · exact ⟨rfl, rfl⟩

end Ending

namespace Node

variable {workspace : Workspace}

/-- A node that was searched is split as the search says. -/
theorem split_eq {splitter : Splitter} {draws : Draws σ} {features : List Int} {source after : σ}
    (live : node.columns = some columns)
    (found : node.search splitter measure draws features source = .ok (best, after)) :
    node.split splitter measure draws features source least workspace =
      (node.splitBest measure columns best least workspace, after) := by
  simp only [split, live, found]

/-- Without an accepted cut the node is released. -/
theorem splitBest_of_none (refused : best.accepted node least = none) :
    node.splitBest measure columns best least workspace =
      { node := node.release, workspace, children := .ok [] } := by
  unfold splitBest
  split
  next => rfl
  next cut found =>
    rw [if_neg]
    intro enough
    simp [Best.accepted, found, enough] at refused

/-- An accepted cut is carried out. -/
theorem splitBest_of_some (accepted : best.accepted node least = some cut)
    (nonneg : 0 ≤ cut.feature) (found : columns[cut.feature.toNat]? = some column) :
    node.splitBest measure columns best least workspace =
      node.splitAt measure columns cut column workspace := by
  obtain ⟨cutEq, enough⟩ := Option.filter_eq_some_iff.mp accepted
  have looked := Position.get?_ofNat columns cut.feature.toNat
  rw [Int.toNat_of_nonneg nonneg, found] at looked
  simp only [splitBest, cutEq, enough, if_true, looked]

variable [Scalar.Ordered α] {values : Nat → Int → α} {count width : Nat}

theorem splitBest_ends (known : targets.Known count)
    (columnsOf : ColumnsOf targets values width ids columns) (distinct : ids.Nodup)
    (inRange : Targets.InRange count ids) (clean : workspace.marks.Clean)
    (justified : best.Justified measure node columns) :
    let outcome := node.splitBest measure columns best least workspace
    outcome.workspace.marks.Clean ∧ Ending values ids measure least node columns outcome := by
  cases accepted : best.accepted node least with
  | none =>
      rw [splitBest_of_none accepted]
      exact ⟨clean, .settled rfl rfl⟩
  | some cut =>
      obtain ⟨column, place, lower, upper, division, rewarded⟩ := justified.division accepted
      have found := division.between.column_eq
      rw [splitBest_of_some accepted division.between.nonneg found]
      obtain ⟨cleanAfter, nodeEq, childrenEq⟩ := splitAt_eq measure node known columnsOf distinct
        inRange found clean
      exact ⟨cleanAfter,
        .divided cut column place lower upper division rewarded nodeEq childrenEq⟩

/-- The search of a node with its columns ends without a split or with a division, and leaves
the table of marks clean. -/
theorem split_ends {draws : Draws σ} (bounded : draws.Bounded) (known : targets.Known count)
    (columnsOf : ColumnsOf targets values width ids columns) (distinct : ids.Nodup)
    (inRange : Targets.InRange count ids) (clean : workspace.marks.Clean)
    (live : node.columns = some columns) {features : List Int}
    (allKnown : AllKnown columns features) (splitter : Splitter) (source : σ) :
    let outcome := (node.split splitter measure draws features source least workspace).1
    outcome.workspace.marks.Clean ∧ Ending values ids measure least node columns outcome := by
  obtain ⟨⟨best, after⟩, found, justified⟩ :=
    search_justified measure bounded live allKnown splitter source
  rw [split_eq live found]
  exact splitBest_ends known columnsOf distinct inRange clean justified

end Node

end Growth

end DecisionTree
