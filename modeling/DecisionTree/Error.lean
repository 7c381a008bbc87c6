import DecisionTree.Setting.Basic

/-!
# What can go wrong

`Error` lists the causes for which an operation gives no result.  Most have a
message of their own; the rest are the plain failures of looking something up or
of reading a value, which have a category only.
-/

namespace DecisionTree

/-- Kinds of failure, coarser than causes. -/
inductive Category where
  /-- A value that is not acceptable where it stands. -/
  | value
  /-- Data that break a rule training relies on. -/
  | invariant
  /-- An operation at the wrong time. -/
  | runtime
  /-- An attempt to store what lives only during training. -/
  | storage
  /-- A position outside a sequence. -/
  | range
  /-- A key that a table does not hold. -/
  | key
  /-- A value of a kind that the operation does not know. -/
  | kind
  /-- A number too large for the type it is read as. -/
  | overflow
  deriving DecidableEq, Repr

/-- Causes of failure. -/
inductive Error where
  /-- A criterion that names no measure. -/
  | unknownCriterion (given : Setting)
  /-- A feature name that is given twice. -/
  | repeatedFeatureName
  /-- A label that is given twice. -/
  | repeatedLabel
  /-- A label that the label table lacks. -/
  | unknownLabel (label : Label)
  /-- Values that do not form a table. -/
  | notTwoDimensional
  /-- A table and a line of labels of different lengths. -/
  | sampleCountsDiffer
  /-- Records and a line of labels of different lengths. -/
  | recordCountsDiffer
  /-- A value that is not a number. -/
  | missingValue
  /-- Feature names that are not one for each column. -/
  | nameCountDiffers
  /-- Weights that are not one for each example. -/
  | weightCountDiffers
  /-- A weight below zero. -/
  | negativeWeight
  /-- An example whose ids and values differ in number. -/
  | idAndValueCountsDiffer
  /-- An id after which a smaller one follows. -/
  | idsNotAscending (next previous : Int)
  /-- An id that follows itself. -/
  | idRepeated (id : Int)
  /-- Ids that are not all feature ids. -/
  | idsOutsideRange (width : Int) (ids : List Int)
  /-- Observations whose values and example ids differ in number. -/
  | observationCountsDiffer
  /-- An example with two values of one feature. -/
  | observedTwice (feature : Int)
  /-- Ids for one side of a column of which the column does not hold all, each once. -/
  | strayIds (feature : Int) (routed present : Nat)
  /-- A merge into one of its own inputs. -/
  | mergeIntoInput
  /-- A second search of a node. -/
  | alreadySearched
  /-- Children that are neither none nor two. -/
  | notTwoChildren
  /-- A second pair of children for a node. -/
  | alreadySplit (node : Int)
  /-- An attempt to store a node of a growing tree. -/
  | nodeNotStorable
  /-- An attempt to store a growing tree. -/
  | forestNotStorable
  /-- A way of searching that is neither of the two known ones. -/
  | unknownSplitter (given : Setting)
  /-- A depth limit below zero. -/
  | negativeDepth
  /-- A least weight below zero. -/
  | negativeChildWeight
  /-- A least decrease of impurity below zero. -/
  | negativeDecrease
  /-- A share of the features that is not above zero and at most one. -/
  | fractionOutsideRange
  /-- No jobs to share the work among. -/
  | noJobs
  /-- Training data without examples. -/
  | emptyDataset
  /-- A question to a classifier that is not fitted. -/
  | notFitted
  /-- Rows of another length than those of the training data. -/
  | featureCountDiffers (given fitted : Nat)
  /-- A drawing without the means to draw. -/
  | drawingUnavailable
  /-- A search of a node that no longer has its columns. -/
  | columnsReleased
  /-- A node that has children but was never split. -/
  | childrenWithoutSplit
  /-- A path of nodes that does not come to a leaf. -/
  | pathUnfinished
  /-- Growth that did not end within its bound on the number of levels. -/
  | growthUnfinished
  /-- A position outside a sequence. -/
  | outOfRange
  /-- A key that is not in a table. -/
  | missingKey
  /-- A value of the wrong kind. -/
  | wrongKind
  /-- A value of the right kind that cannot be used. -/
  | badValue
  /-- A number too large for the type it is read as. -/
  | tooLarge
  deriving Inhabited

namespace Error

/-- Integers between brackets, with a comma and a blank between them. -/
def listed (values : List Int) : String :=
  "[" ++ ", ".intercalate (values.map toString) ++ "]"

/-- The wording of an error; the plain failures have none. -/
def message? : Error → Option String
  | unknownCriterion given =>
      some s!"Unknown criterion {given.quoted}; expected one of ['entropy', 'gini']"
  | repeatedFeatureName => some "feature names must be unique"
  | repeatedLabel => some "labels must be unique"
  | unknownLabel label => some s!"label {label.quoted} is not in the label map"
  | notTwoDimensional => some "X must be a 2D array"
  | sampleCountsDiffer => some "X and y have inconsistent numbers of samples"
  | recordCountsDiffer => some "records and y have inconsistent numbers of samples"
  | missingValue => some "X contains NaN; missing values are not supported"
  | nameCountDiffers => some "feature_names length must match X.shape[1]"
  | weightCountDiffers => some "sample_weight must have the same length as y"
  | negativeWeight => some "sample_weight must be non-negative"
  | idAndValueCountsDiffer => some "feature ids and values differ in length"
  | idsNotAscending next previous =>
      some s!"Features aren't ordered: id {next} follows {previous}"
  | idRepeated id => some s!"Features are repeated: id {id}"
  | idsOutsideRange width ids =>
      some s!"Feature ids must lie in [0, {width}), got {listed ids}"
  | observationCountsDiffer => some "values and example_indices differ in length"
  | observedTwice feature =>
      some s!"Feature {feature} observed the same example more than once"
  | strayIds feature routed present =>
      some (s!"Feature {feature}: {routed} ids routed left but " ++
        s!"only {present} present in the column")
  | mergeIntoInput => some "merge output must not alias its first input"
  | alreadySearched => some "split search already ran on this node"
  | notTwoChildren => some "a split produces exactly two children"
  | alreadySplit node => some s!"node {node} already has children"
  | nodeNotStorable =>
      some "TrainingNode is a runtime class only, and should not be serialized."
  | forestNotStorable =>
      some "TrainingArena holds TrainingNodes and should not be serialized."
  | unknownSplitter given =>
      some s!"splitter must be 'best' or 'random', got {given.quoted}"
  | negativeDepth => some "max_depth must be None or a non-negative integer"
  | negativeChildWeight => some "min_child_weight must be non-negative"
  | negativeDecrease => some "min_impurity_decrease must be non-negative"
  | fractionOutsideRange => some "max_features must be a fraction in (0, 1]"
  | noJobs => some "n_jobs must not be 0"
  | emptyDataset => some "cannot fit a tree on an empty dataset"
  | notFitted => some "Estimator not fitted. Call fit(...) first."
  | featureCountDiffers given fitted =>
      some s!"X has {given} features, but the tree was fitted with {fitted}"
  | drawingUnavailable =>
      some "Graphviz is required for export_graphviz but not installed."
  | columnsReleased | childrenWithoutSplit | pathUnfinished | growthUnfinished => none
  | outOfRange | missingKey | wrongKind | badValue | tooLarge => none

/-- The category of an error. -/
def category : Error → Category
  | idAndValueCountsDiffer | idsNotAscending .. | idRepeated .. | idsOutsideRange ..
  | observedTwice .. | strayIds .. => .invariant
  | alreadySearched | drawingUnavailable | pathUnfinished | growthUnfinished => .runtime
  | nodeNotStorable | forestNotStorable => .storage
  | outOfRange => .range
  | missingKey => .key
  | columnsReleased | childrenWithoutSplit | wrongKind => .kind
  | tooLarge => .overflow
  | _ => .value

end Error

end DecisionTree
