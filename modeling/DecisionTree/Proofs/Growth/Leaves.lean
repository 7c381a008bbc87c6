import Mathlib.Algebra.Order.Field.Rat
import DecisionTree.Dataset.Dense
import DecisionTree.Proofs.Growth.Exact

/-!
# What the leaves of a tree hold

Over the rational numbers every threshold separates the values beside it, so growth ends, the
forest can be converted, and the rows that reach a leaf are the examples of the node it was made
from.  The histogram of that node lists their weights, so the distribution of the leaf is that of
the rows which reach it (`leaves_describe_rows`).
-/

namespace DecisionTree

/-- A place holds the first of the largest values of a list. -/
def IsFirstMaximum (values : List ℚ) (place : Nat) : Prop :=
  ∃ value, values[place]? = some value ∧ (∀ other ∈ values, other ≤ value) ∧
    ∀ earlier < place, ∀ other, values[earlier]? = some other → other < value

/-- The total weight of some examples. -/
def Dataset.weightOf (dataset : Dataset ℚ) (ids : List Int) : ℚ :=
  (ids.map dataset.weightAt).sum

/-- The total weight of those of some examples that have a label. -/
def Dataset.weightOfLabel (dataset : Dataset ℚ) (ids : List Int) (label : Nat) : ℚ :=
  dataset.weightOf (ids.filter fun index => dataset.labelAt index == label)

/-- The share of each label in the weight of some examples; without positive weight all labels have
the same share. -/
def Dataset.shares (dataset : Dataset ℚ) (ids : List Int) : List ℚ :=
  if 0 < dataset.weightOf ids then
    (List.range dataset.labels.size).map fun label =>
      dataset.weightOfLabel ids label / dataset.weightOf ids
  else
    List.replicate dataset.labels.size (1 / dataset.labels.size)

/-- The shares depend on the set of examples only. -/
theorem Dataset.shares_perm {dataset : Dataset ℚ} {ids others : List Int}
    (perm : ids.Perm others) : dataset.shares ids = dataset.shares others := by
  have weights : ∀ {ids others : List Int}, ids.Perm others →
      dataset.weightOf ids = dataset.weightOf others := fun perm => (perm.map _).sum_eq
  simp only [shares, weightOfLabel, weights perm, weights (perm.filter _)]

/-- The histogram of some examples adds up to their weight. -/
theorem Dataset.sum_tally (dataset : Dataset ℚ) {count : Nat} (known : dataset.targets.Known count)
    {ids : List Int} (inRange : Targets.InRange count ids) :
    Scalar.sum (dataset.targets.tally ids) = dataset.weightOf ids := by
  rw [Exact.sum_eq, known.sum_tally inRange]
  rfl

namespace Growth

namespace Node

theorem isFirstMaximum_firstMaximum {values : List ℚ} (nonempty : values ≠ []) :
    IsFirstMaximum values (firstMaximum values) := by
  obtain ⟨value, found, largest, earlier⟩ := isFirstLargest_firstMaximum nonempty
  refine ⟨value, found, fun other member => ?_, fun before isBefore other otherFound => ?_⟩
  · have notLess := largest other member
    rwa [Bool.eq_false_iff, ne_eq, Exact.lt_iff, not_lt] at notLess
  · rcases earlier before isBefore other otherFound with less | noNumber
    · exact Exact.lt_iff.mp less
    · cases noNumber.symm.trans (Exact.isNumber other)

/-- The distribution of a histogram of examples. -/
theorem distribution_tally {dataset : Dataset ℚ} {count : Nat}
    (known : dataset.targets.Known count) {ids : List Int} (inRange : Targets.InRange count ids) :
    distribution (dataset.targets.tally ids) = dataset.shares ids := by
  have length : (dataset.targets.tally ids).length = dataset.labels.size := Targets.length_tally _ _
  rw [distribution, dataset.sum_tally known inRange, length, Dataset.shares]
  simp only [Exact.lt_iff]
  split
  · rw [Targets.tally, Histogram.tally_eq_map, List.map_map]
    apply List.map_congr_left
    intro label _
    have labelled := dataset.weightOf_labelled ids
    simp only [Function.comp_apply]
    rw [labelled]
    rfl
  · rcases Nat.eq_zero_or_pos dataset.labels.size with none | some
    · rw [none]
      rfl
    · rw [Nat.max_eq_left some]
      rfl

/-- A node whose histogram is that of some examples can be made into a leaf. -/
theorem toLeaf_spec {dataset : Dataset ℚ} {count : Nat} (known : dataset.targets.Known count)
    {ids : List Int} (inRange : Targets.InRange count ids) {node : Node ℚ}
    (counts : node.counts = dataset.targets.tally ids) (labelled : dataset.labels.labels ≠ []) :
    ∃ leaf, node.toLeaf dataset.labels.labels = .ok leaf ∧
      leaf.distribution = dataset.shares ids ∧
        ∃ best : Nat, leaf.labelId = best ∧ IsFirstMaximum leaf.distribution best := by
  have length : node.counts.length = dataset.labels.labels.length := by
    rw [counts]
    exact Targets.length_tally _ _
  obtain ⟨leaf, made⟩ := exists_toLeaf labelled length
  obtain ⟨-, distributionEq, labelId⟩ := of_toLeaf made
  refine ⟨leaf, made, ?_, _, labelId, ?_⟩
  · rw [distributionEq, counts, distribution_tally known inRange]
  · rw [distributionEq]
    apply isFirstMaximum_firstMaximum
    apply List.ne_nil_of_length_pos
    rw [length_distribution, length]
    exact List.length_pos_iff.mpr labelled

end Node

variable {σ : Type} {policy : Policy ℚ} {draws : Draws σ} {dataset : Dataset ℚ} {source : σ}
variable {rows : List (List ℚ)} {state : State ℚ σ} {origins : List (Origin ℚ)}

/-- Every node can be made into a leaf, which describes the examples of the node. -/
theorem Course.toLeaf_spec (fromRows : dataset.FromRows rows) (bounded : draws.Bounded)
    (nonempty : dataset.examples ≠ []) (course : Course policy draws dataset source state origins)
    {id : Nat} {slot : Slot ℚ} {origin : Origin ℚ} (found : state.forest.slots[id]? = some slot)
    (originFound : origins[id]? = some origin) :
    ∃ leaf, slot.node.toLeaf dataset.labels.labels = .ok leaf ∧
      leaf.distribution = dataset.shares origin.ids ∧
        ∃ best : Nat, leaf.labelId = best ∧ IsFirstMaximum leaf.distribution best := by
  have slotSound :=
    (course.sound fromRows bounded).forest_sound.slots id slot origin found originFound
  exact Node.toLeaf_spec fromRows.known slotSound.origin_sound.inRange
    (course.counts_tally fromRows bounded found originFound) (fromRows.labels_ne_nil nonempty)

/-- Growth over an accepted table of rational numbers, whatever the rules and whatever is drawn:
it ends, its forest can be converted, and every leaf of the tree gives the shares of the labels in
the weight of the rows that reach it, predicts the first label with a largest share, and was made
from a node whose examples are those rows.  The weights are those given for the rows, or one each,
and the label id of a row is the place of its label in the table. -/
theorem leaves_describe_rows {values : Nested ℚ} {labels : Nested Label}
    {weights : Option (Nested ℚ)} {names : Option Setting} {table : Option LabelTable}
    {dataset : Dataset ℚ}
    (accepted : Dataset.ofTable values labels weights names table = .ok dataset)
    (nonempty : dataset.examples ≠ []) (policy : Policy ℚ) {draws : Draws σ}
    (bounded : draws.Bounded) (source : σ) :
    ∃ width rows line, values.grid = .ok (.table width rows) ∧ labels.grid = .ok (.line line) ∧
      dataset.size = rows.length ∧ line.length = rows.length ∧
      (∀ row < rows.length, Dataset.IsWeight weights row (dataset.weightAt row) ∧
        ∀ label, (Atom.uniform line)[row]? = some label →
          ∃ known, dataset.labels.labels[dataset.labelAt row]? = some known ∧
            known.equal label = true) ∧
      (dataset.features.size ≤ 2 ^ 63 →
        ∃ state : State ℚ σ, start policy.measure dataset source = .ok state) ∧
      ∀ state, start policy.measure dataset source = .ok state →
        ∃ final origins tree, finish policy draws dataset state = .ok final ∧
          Course policy draws dataset source final origins ∧
          final.forest.toTree dataset.labels.labels 0 = .ok tree ∧
          ∀ path leaf, tree.leafAt? path = some leaf →
            let reaching := dataset.indices.filter fun index =>
              tree.route? (rows.getD index.toNat []) == some path
            (∀ index ∈ reaching, tree.leafFor? (rows.getD index.toNat []) = some leaf) ∧
            leaf.distribution = dataset.shares reaching ∧
            (∃ best : Nat, leaf.labelId = best ∧ IsFirstMaximum leaf.distribution best) ∧
            ∃ last node origin, final.forest.descend 0 path = some last ∧
              final.forest.slots[last]? = some { node, children := none } ∧
              origins[last]? = some origin ∧ node.toLeaf dataset.labels.labels = .ok leaf ∧
              origin.ids.Perm reaching := by
  obtain ⟨width, rows, grid, fromRows⟩ := Dataset.fromRows_of_ofTable accepted
  obtain ⟨line, isLine, length, labelled⟩ := Dataset.labelled_of_ofTable accepted
  rw [fromRows.size_eq] at length labelled
  refine ⟨width, rows, line, grid, isLine, fromRows.size_eq, length, labelled,
    fun narrow => exists_start fromRows narrow _ _, ?_⟩
  intro state started
  obtain ⟨final, origins, finished, course⟩ :=
    (Course.start started).exists_finish fromRows bounded
  have sound := (course.sound fromRows bounded).forest_sound
  obtain ⟨root, rootFound, rootIds⟩ := course.root_origin
  obtain ⟨tree, converted⟩ := course.exists_tree fromRows bounded nonempty
  refine ⟨final, origins, tree, finished, course, converted, ?_⟩
  intro path leaf leafFound reaching
  obtain ⟨last, node, origin, descends, ending, originFound, leafEq, examples⟩ :=
    sound.leaf_examples fromRows (Ground.separated _) converted rootFound leafFound
  obtain ⟨other, otherEq, distribution, maximum⟩ :=
    course.toLeaf_spec fromRows bounded nonempty ending originFound
  obtain rfl := Except.ok.inj (leafEq.symm.trans otherEq)
  have perm : origin.ids.Perm reaching := by
    have distinct := (sound.slots last _ origin ending originFound).origin_sound.nodup
    refine (List.perm_ext_iff_of_nodup distinct
      ((Dataset.nodup_indices dataset).filter _)).mpr fun index => ?_
    rw [examples index, rootIds, List.mem_filter, beq_iff_eq]
  refine ⟨?_, ?_, maximum, last, node, origin, descends, ending, originFound, leafEq, perm⟩
  · intro index member
    obtain ⟨-, reaches⟩ := List.mem_filter.mp member
    rw [Tree.leafFor?_eq, beq_iff_eq.mp reaches, Option.bind_some, leafFound]
  · rw [distribution, Dataset.shares_perm perm]

/-- Weights for the rows of the sample, which outweigh the more frequent label on either side. -/
def Sample.weights : Nested ℚ :=
  .many ([1, 1, 1, 5, 1, 1, 1, 9].map .one)

/-- The weighted sample over the rational numbers is divided between its two values.  The left leaf
gives the shares of the labels in the weight of the first four rows: the fourth row alone has more
weight than the others together, so its label is predicted. -/
theorem leaves_describe_rows_sample :
    ∃ (dataset : Dataset ℚ) (final : State ℚ Nat) (tree : Tree ℚ) (leaf : Leaf ℚ),
      Dataset.ofTable (Sample.values 0 1) Sample.labels (some Sample.weights) none none =
        .ok dataset ∧
      dataset.examples ≠ [] ∧ run Sample.policy (.repeating []) dataset 0 = .ok final ∧
      final.forest.toTree dataset.labels.labels 0 = .ok tree ∧ tree.leafAt? [true] = some leaf ∧
      dataset.weightAt 3 = 5 ∧ leaf.distribution = dataset.shares [0, 1, 2, 3] ∧
      leaf.distribution = [3 / 8, 5 / 8] ∧ leaf.labelId = 1 := by
  have passed : Outcome.passes (do
      let dataset ← Dataset.ofTable (Sample.values (0 : ℚ) 1) Sample.labels (some Sample.weights)
        none none
      let state ← start Sample.policy.measure dataset 0
      let final ← finish Sample.policy (.repeating []) dataset state
      let tree ← final.forest.toTree dataset.labels.labels 0
      pure (dataset, tree)) (fun (dataset, tree) =>
        !dataset.examples.isEmpty &&
        (tree.leafAt? [true]).any (fun leaf =>
          leaf.distribution == [3 / 8, 5 / 8] && leaf.labelId == 1) &&
        dataset.indices.filter (fun index =>
          tree.route? ((Sample.rows 0 1).getD index.toNat []) == some [true]) == [0, 1, 2, 3]) =
        true := by
    decide +kernel
  obtain ⟨⟨dataset, tree⟩, computed, test⟩ := Outcome.exists_of_passes passed
  obtain ⟨other, accepted, computed⟩ := Outcome.bind_eq_ok.mp computed
  obtain ⟨state, started, computed⟩ := Outcome.bind_eq_ok.mp computed
  obtain ⟨final, finished, computed⟩ := Outcome.bind_eq_ok.mp computed
  obtain ⟨found, converted, same⟩ := Outcome.bind_eq_ok.mp computed
  obtain ⟨rfl, rfl⟩ := Prod.mk.inj (Except.ok.inj same)
  simp only [Bool.and_eq_true, Option.any_eq_true, beq_iff_eq, Bool.not_eq_true',
    List.isEmpty_eq_false_iff] at test
  obtain ⟨⟨nonempty, leaf, leafFound, distribution, label⟩, reaching⟩ := test
  obtain ⟨width, rows, line, grid, -, -, -, given, -, grown⟩ :=
    leaves_describe_rows accepted nonempty Sample.policy Draws.bounded_zeros 0
  obtain rfl := Sample.rows_eq grid
  obtain ⟨last, origins, grownTree, lastEq, -, treeEq, describes⟩ := grown state started
  obtain rfl := Except.ok.inj (finished.symm.trans lastEq)
  obtain rfl := Except.ok.inj (converted.symm.trans treeEq)
  obtain ⟨-, shares, -⟩ := describes [true] leaf leafFound
  have weight : other.weightAt 3 = 5 := by
    rcases (given 3 (by decide)).1 with ⟨none, -⟩ | ⟨nested, line, isGiven, isLine, found⟩
    · cases none
    · obtain rfl := Option.some.inj isGiven
      obtain rfl := (Grid.line.injEq ..).mp (Except.ok.inj isLine)
      exact (Option.some.inj found).symm
  refine ⟨other, final, found, leaf, accepted, nonempty, ?_, converted, leafFound, weight, ?_,
    distribution, label⟩
  · exact Outcome.bind_eq_ok.mpr ⟨state, started, finished⟩
  · rw [shares, reaching]

end Growth

end DecisionTree
