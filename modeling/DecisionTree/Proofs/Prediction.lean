import DecisionTree.Proofs.Dataset.Records
import DecisionTree.Proofs.Draws
import DecisionTree.Proofs.Growth.Addresses
import DecisionTree.Proofs.Growth.Regular
import DecisionTree.Proofs.Labels

/-!
# Predictions and leaves

Every row with all features reaches a leaf of a fitted tree, and the leaf predicts the first label
with a largest share.  The label that is predicted for the row stands at the same place in an array
of all labels, so it equals the label of the leaf exactly if that label is kept in the array
(`Classifier.predictions_agree`).  It always is if the table of labels was made from the labels of
the examples and no integer among these is too large for 64 bits with a sign.
-/

namespace DecisionTree

open Growth (PredictsFirst)

/-- No integer in a line of labels is beyond 64 bits with a sign. -/
def Nested.Narrow (labels : Nested Label) : Prop :=
  ∀ line, labels.grid = .ok (.line line) → ∀ value : Int, .int value ∈ line →
    -0x8000000000000000 ≤ value ∧ value < 0x8000000000000000

theorem Nested.Narrow.of_mem {labels : Nested Label} (narrow : labels.Narrow) {line : List Label}
    (isLine : labels.grid = .ok (.line line)) : ∀ label ∈ line, label.Narrow := by
  intro label member
  cases label with
  | int value => exact narrow line isLine value member
  | null | bool | float | text => trivial

/-- A label table that is not given is made from the labels that occur, so all of its labels are
kept in an array, unless integers beyond 64 bits with a sign are among them. -/
theorem Dataset.keptIn_of_ofTable {values : Nested Float} {labels : Nested Label}
    {weights : Option (Nested Float)} {names : Option Setting} {dataset : Dataset Float}
    (accepted : Dataset.ofTable values labels weights names none = .ok dataset)
    (narrow : labels.Narrow) :
    ∀ label ∈ dataset.labels.labels, label.KeptIn dataset.labels.labels := by
  obtain ⟨_, _, _, _, _, _, -, isLine, -, -, -, -, -, made, found, -⟩ := ofTable_eq_ok.mp accepted
  exact LabelTable.keptIn_of_occurrences made found (narrow.of_mem isLine)

theorem Dataset.keptIn_of_ofRecords {κ : Type} {read : κ → Except Error (Option Float)}
    {records : List (Record κ)} {labels : Nested Label} {weights : Option (Nested Float)}
    {dataset : Dataset Float}
    (accepted : Dataset.ofRecords read records labels weights none = .ok dataset)
    (narrow : labels.Narrow) :
    ∀ label ∈ dataset.labels.labels, label.KeptIn dataset.labels.labels := by
  obtain ⟨grid, line, _, _, gridEq, -, isLine, -, -, made, found, -⟩ := ofRecords_eq_ok.mp accepted
  refine LabelTable.keptIn_of_occurrences made found ?_
  rcases isLine with rfl | ⟨-, rfl⟩
  · exact narrow.of_mem gridEq
  · exact fun _ member => absurd member List.not_mem_nil

namespace Classifier

variable {classifier fitted : Classifier} {processors : Nat} {dataset : Dataset Float}

theorem fitted_eq_ok {model : Model} :
    classifier.fitted = .ok model ↔ classifier.model = some model := by
  unfold Classifier.fitted
  cases classifier.model <;> simp

/-- A fitted model holds the labels of its dataset, and every row with all features reaches a leaf
that predicts the first label with a largest share. -/
theorem exists_leaf_of_fit (fit : classifier.fitDataset processors dataset = .ok fitted) :
    ∃ model, fitted.model = some model ∧ model.features = dataset.features ∧
      model.labels = dataset.labels ∧ model.classes = Atom.uniform dataset.labels.labels ∧
      ∀ row : List Float, row.length = dataset.features.size →
        ∃ leaf, model.tree.leafFor? row = some leaf ∧ PredictsFirst dataset.labels.labels leaf := by
  obtain ⟨checked, seed, workers, root, grown, tree, -, started, finished, converted, isModel⟩ :=
    fitDataset_eq_ok fit
  obtain ⟨inside, predicts⟩ :=
    (Growth.finish_regular Twister.draws_bounded started finished).treeWithin converted
  refine ⟨_, isModel, rfl, rfl, rfl, fun row length => ?_⟩
  rw [← length] at inside
  obtain ⟨path, leaf, atEnd, reached⟩ := Tree.exists_leafFor? inside
  exact ⟨leaf, reached, predicts path leaf atEnd⟩

section Rows

variable {model : Model} {values : Nested Float} {rows : List (List Float)}
  {labels : List Label} {leaves : List (Leaf Float)}

/-- If every row reaches a leaf, there are leaves for a table of rows. -/
theorem Model.exists_leaves {property : Leaf Float → Prop}
    (grid : values.grid = .ok (.table model.features.size rows))
    (reaches : ∀ row ∈ rows, ∃ leaf, model.tree.leafFor? row = some leaf ∧ property leaf) :
    ∃ leaves, model.leaves values = .ok leaves ∧ leaves.length = rows.length ∧
      ∀ leaf ∈ leaves, property leaf := by
  have rowsEq : model.rows values = .ok (.values rows) := by
    simp only [Model.rows, grid, Rows.ofGrid, bind, Except.bind, ne_eq, not_true_eq_false,
      if_false]
    rfl
  have found : ∃ leaves, model.leaves values = .ok leaves := by
    rw [Model.leaves, rowsEq]
    refine Outcome.exists_mapM_eq_ok fun row member => ?_
    obtain ⟨leaf, reached, -⟩ := reaches row member
    exact ⟨leaf, by rw [reached]⟩
  obtain ⟨leaves, leavesEq⟩ := found
  have each := leavesEq
  rw [Model.leaves, rowsEq] at each
  refine ⟨leaves, leavesEq, (Outcome.mapM_eq_ok.mp each).length_eq.symm, fun leaf member => ?_⟩
  obtain ⟨row, rowMember, own⟩ := Outcome.exists_of_mem_mapM each leaf member
  obtain ⟨other, reached, holds⟩ := reaches row rowMember
  rw [reached] at own
  exact Except.ok.inj own ▸ holds

/-- What is predicted for a row is what becomes of the label of its leaf in an array. -/
theorem Model.predict_eq (classes : model.classes = Atom.uniform labels)
    (leavesEq : model.leaves values = .ok leaves)
    (predicts : ∀ leaf ∈ leaves, PredictsFirst labels leaf) :
    model.predict values =
      .ok (leaves.map fun leaf => Atom.toKind (Atom.kindOf labels) leaf.label) := by
  rw [Model.predict, leavesEq]
  refine Outcome.mapM_eq_map fun leaf member => ?_
  obtain ⟨place, idEq, labelFound, -⟩ := predicts leaf member
  rw [idEq, Position.get?_ofNat, classes, Atom.uniform, List.getElem?_map, labelFound]
  rfl

end Rows

/-- For a matrix with all features, the rows reach leaves; their labels are predicted, and their
shares are the probabilities.  Each leaf predicts the first of the labels of the dataset with a
largest share.  The label that is predicted for a row equals that of its leaf exactly if this label
is kept in an array of all labels.  All labels are kept unless a label table was given or an integer
is beyond 64 bits with a sign. -/
theorem predictions_agree (fit : classifier.fitDataset processors dataset = .ok fitted) :
    ∃ model, fitted.model = some model ∧ model.labels = dataset.labels ∧
      (∀ (values : Nested Float) (rows : List (List Float)),
        values.grid = .ok (.table dataset.features.size rows) →
          ∃ (leaves : List (Leaf Float)) (predicted : List Label) (width : Nat),
            model.leaves values = .ok leaves ∧ model.predict values = .ok predicted ∧
            model.probabilities values = .ok (width, leaves.map Leaf.distribution) ∧
            leaves.length = rows.length ∧ predicted.length = rows.length ∧
            ∀ (row : Nat) (leaf : Leaf Float) (label : Label), leaves[row]? = some leaf →
              predicted[row]? = some label →
                PredictsFirst dataset.labels.labels leaf ∧ leaf.label ∈ dataset.labels.labels ∧
                (label.equal leaf.label = true ↔ leaf.label.KeptIn dataset.labels.labels)) ∧
      (∀ (values : Nested Float) (labels : Nested Label) (weights : Option (Nested Float))
        (names : Option Setting),
        Dataset.ofTable values labels weights names none = .ok dataset → labels.Narrow →
          ∀ label ∈ dataset.labels.labels, label.KeptIn dataset.labels.labels) ∧
      ∀ (κ : Type) (read : κ → Except Error (Option Float)) (records : List (Dataset.Record κ))
        (labels : Nested Label) (weights : Option (Nested Float)),
        Dataset.ofRecords read records labels weights none = .ok dataset → labels.Narrow →
          ∀ label ∈ dataset.labels.labels, label.KeptIn dataset.labels.labels := by
  obtain ⟨model, isModel, features, labels, classes, reaches⟩ := exists_leaf_of_fit fit
  refine ⟨model, isModel, labels, fun values rows grid => ?_,
    fun _ _ _ _ => Dataset.keptIn_of_ofTable, fun _ _ _ _ _ => Dataset.keptIn_of_ofRecords⟩
  obtain ⟨leaves, leavesEq, length, predicts⟩ := Model.exists_leaves (features ▸ grid)
    fun row member => reaches row (Nested.length_of_grid grid row member)
  obtain ⟨width, shares⟩ : ∃ width,
      model.probabilities values = .ok (width, leaves.map Leaf.distribution) := by
    rw [Model.probabilities, leavesEq]
    exact ⟨_, rfl⟩
  refine ⟨leaves, _, width, leavesEq, Model.predict_eq classes leavesEq predicts, shares, length,
    by rw [List.length_map, length], ?_⟩
  intro row leaf label leafFound labelFound
  rw [List.getElem?_map, leafFound] at labelFound
  obtain rfl := Option.some.inj labelFound
  have predictsFirst := predicts leaf (List.mem_of_getElem? leafFound)
  have known : leaf.label ∈ dataset.labels.labels := by
    obtain ⟨place, -, found, -⟩ := predictsFirst
    exact List.mem_of_getElem? found
  exact ⟨predictsFirst, known, Atom.equal_toKind known⟩

/-- Without any split all rows of the sample reach one leaf, in which both labels have the same
share, so the first label is predicted. -/
theorem predictions_agree_sample :
    ∃ (dataset : Dataset Float) (fitted : Classifier) (model : Model) (leaves : List (Leaf Float))
      (predicted : List Label) (width : Nat),
      Dataset.ofTable (Growth.Sample.values 0 1) Growth.Sample.labels none none none =
        .ok dataset ∧
      ({ settings := { maxDepth := .atom (.int 0) } } : Classifier).fitDataset 1 dataset =
        .ok fitted ∧
      fitted.model = some model ∧ model.leaves (Growth.Sample.values 0 1) = .ok leaves ∧
      model.predict (Growth.Sample.values 0 1) = .ok predicted ∧
      model.probabilities (Growth.Sample.values 0 1) = .ok (width, leaves.map Leaf.distribution) ∧
      leaves.length = 8 ∧ predicted.length = 8 ∧ (∀ leaf ∈ leaves, leaf.labelId = 0) ∧
      ∀ (row : Nat) (leaf : Leaf Float) (label : Label), leaves[row]? = some leaf →
        predicted[row]? = some label →
          PredictsFirst dataset.labels.labels leaf ∧ leaf.label ∈ dataset.labels.labels ∧
          label.equal leaf.label = true := by
  have narrow : Growth.Sample.labels.Narrow := by
    intro line isLine value member
    obtain rfl := (Grid.line.injEq ..).mp (Except.ok.inj isLine)
    simp at member
    omega
  have passed : Outcome.passes (do
      let dataset ← Dataset.ofTable (Growth.Sample.values (0 : Float) 1) Growth.Sample.labels none
        none none
      let fitted ← ({ settings := { maxDepth := .atom (.int 0) } } : Classifier).fitDataset 1
        dataset
      let model ← fitted.fitted
      let leaves ← model.leaves (Growth.Sample.values 0 1)
      pure (dataset, fitted, model, leaves)) (fun (dataset, _, _, leaves) =>
        dataset.features.size == 1 && leaves.all fun leaf => leaf.labelId == 0) = true := by
    decide +kernel
  obtain ⟨⟨dataset, fitted, model, leaves⟩, computed, test⟩ := Outcome.exists_of_passes passed
  obtain ⟨other, accepted, computed⟩ := Outcome.bind_eq_ok.mp computed
  obtain ⟨after, fit, computed⟩ := Outcome.bind_eq_ok.mp computed
  obtain ⟨own, isModel, computed⟩ := Outcome.bind_eq_ok.mp computed
  obtain ⟨reached, leavesEq, same⟩ := Outcome.bind_eq_ok.mp computed
  cases Except.ok.inj same
  simp only [Bool.and_eq_true, beq_iff_eq, List.all_eq_true] at test
  obtain ⟨single, first⟩ := test
  obtain ⟨_, found, -, agree, kept, -⟩ := predictions_agree fit
  obtain rfl := Option.some.inj ((fitted_eq_ok.mp isModel).symm.trans found)
  obtain ⟨_, predicted, width, foundEq, predictedEq, shares, leafCount, count, equal⟩ :=
    agree (Growth.Sample.values 0 1) (Growth.Sample.rows 0 1) (by rw [single]; rfl)
  obtain rfl := Except.ok.inj (leavesEq.symm.trans foundEq)
  refine ⟨dataset, fitted, model, leaves, predicted, width, accepted, fit, found, leavesEq,
    predictedEq, shares, leafCount, count, first, fun row leaf label leafFound labelFound => ?_⟩
  obtain ⟨isFirst, known, equalIff⟩ := equal row leaf label leafFound labelFound
  exact ⟨isFirst, known, equalIff.mpr (kept _ _ _ _ accepted narrow _ known)⟩

/-- A table with an integer and a text. -/
def Sample.mixed : LabelTable := ⟨[.int 1, .text "a"], by decide⟩

/-- If a table with an integer and a text is given, what is predicted is a text, while the leaf that
is reached has the integer. -/
theorem text_predicted_for_integer :
    ∃ (dataset : Dataset Float) (fitted : Classifier) (model : Model) (leaf : Leaf Float)
      (label : Label),
      Dataset.ofTable (.ofRows 1 [[0], [1]]) (.many [.one (.int 1), .one (.int 1)]) none none
        (some Sample.mixed) = .ok dataset ∧
      ({} : Classifier).fitDataset 1 dataset = .ok fitted ∧ fitted.model = some model ∧
      model.leaves (.ofRows 1 [[0]]) = .ok [leaf] ∧ model.predict (.ofRows 1 [[0]]) = .ok [label] ∧
      leaf.label.equal (.int 1) = true ∧ label = .text "1" ∧ label.equal leaf.label = false := by
  have passed : Outcome.passes (do
      let dataset ← Dataset.ofTable (.ofRows 1 [[(0 : Float)], [1]])
        (.many [.one (.int 1), .one (.int 1)]) none none (some Sample.mixed)
      let fitted ← ({} : Classifier).fitDataset 1 dataset
      let model ← fitted.fitted
      let leaves ← model.leaves (.ofRows 1 [[0]])
      let predicted ← model.predict (.ofRows 1 [[0]])
      pure (dataset, fitted, model, leaves, predicted)) (fun (_, _, _, leaves, predicted) =>
        leaves.length == 1 && predicted.length == 1 && leaves.all fun leaf =>
          leaf.label.equal (.int 1) && predicted.all fun label =>
            label.equal (.text "1") && !label.equal leaf.label) = true := by
    decide +kernel
  obtain ⟨⟨dataset, fitted, model, leaves, predicted⟩, computed, test⟩ :=
    Outcome.exists_of_passes passed
  obtain ⟨other, accepted, computed⟩ := Outcome.bind_eq_ok.mp computed
  obtain ⟨after, fit, computed⟩ := Outcome.bind_eq_ok.mp computed
  obtain ⟨own, isModel, computed⟩ := Outcome.bind_eq_ok.mp computed
  obtain ⟨reached, leavesEq, computed⟩ := Outcome.bind_eq_ok.mp computed
  obtain ⟨labels, predictedEq, same⟩ := Outcome.bind_eq_ok.mp computed
  cases Except.ok.inj same
  simp only [Bool.and_eq_true, beq_iff_eq, List.all_eq_true, Bool.not_eq_true'] at test
  obtain ⟨⟨oneLeaf, oneLabel⟩, differ⟩ := test
  obtain ⟨leaf, rfl⟩ := List.length_eq_one_iff.mp oneLeaf
  obtain ⟨label, rfl⟩ := List.length_eq_one_iff.mp oneLabel
  obtain ⟨integer, texts⟩ := differ leaf List.mem_cons_self
  obtain ⟨text, unequal⟩ := texts label List.mem_cons_self
  exact ⟨dataset, fitted, model, leaf, label, accepted, fit, fitted_eq_ok.mp isModel, leavesEq,
    predictedEq, integer, Atom.equal_text_iff.mp text, unequal⟩

end Classifier

end DecisionTree
