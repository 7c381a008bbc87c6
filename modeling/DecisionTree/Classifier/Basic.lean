import DecisionTree.Classifier.Settings
import DecisionTree.Dataset.Dense
import DecisionTree.Draws.Twister
import DecisionTree.Report.Drawing
import DecisionTree.Report.Outline
import DecisionTree.Report.Rules

/-!
# The classifier

A classifier is fitted to a dataset and then predicts labels for rows of values.  A
fit that fails leaves what was fitted before.  Predictions give the labels as one
array, so their kinds are brought together, while the leaves of the tree keep the
labels as they stand in the label table.
-/

namespace DecisionTree

namespace Classifier

/-- The result of a fit. -/
structure Model where
  tree : Tree Float
  /-- The number of nodes grown. -/
  nodeCount : Nat
  /-- The labels as one array, in id order. -/
  classes : List Label
  features : FeatureNames
  labels : LabelTable

end Classifier

/-- Parameters and, once fitted, a model. -/
structure Classifier where
  settings : Classifier.Settings := {}
  model : Option Classifier.Model := none

namespace Classifier

/-- Fits a tree to a dataset, on a machine with the given number of processors. -/
def fitDataset (classifier : Classifier) (processors : Nat) (dataset : Dataset Float) :
    Except Error Classifier := do
  let checked ← classifier.settings.check
  if dataset.examples.isEmpty then throw .emptyDataset
  let seed ← Settings.seed? classifier.settings.seed
  let workers ← Settings.workers? processors classifier.settings.jobs
  let policy := checked.policy dataset.features.size workers
  let root ← Growth.start policy.measure dataset (Twister.ofSeed seed)
  if workers = 0 then throw .badValue
  let grown ← Growth.finish policy Twister.draws dataset root
  let tree ← grown.forest.toTree dataset.labels.labels 0
  let model : Model :=
    { tree
      nodeCount := grown.forest.size
      classes := Atom.uniform dataset.labels.labels
      features := dataset.features
      labels := dataset.labels }
  pure { classifier with model := some model }

/-- Fits a tree to a table of values and labels.  Feature names given here come before
those of the settings. -/
def fit (classifier : Classifier) (processors : Nat) (values : Nested Float)
    (labels : Nested Label) (weights : Option (Nested Float)) (names : Option Setting) :
    Except Error Classifier := do
  let names := names.orElse fun _ =>
    if classifier.settings.featureNames.isNull then none
    else some classifier.settings.featureNames
  classifier.fitDataset processors (← Dataset.ofTable values labels weights names none)

/-- The fitted model. -/
def fitted (classifier : Classifier) : Except Error Model :=
  match classifier.model with
  | some model => .ok model
  | none => .error .notFitted

/-- The rows that predictions are made for. -/
inductive Rows where
  /-- One value for each feature. -/
  | values (rows : List (List Float))
  /-- A number of rows in which lists stand in place of the values. -/
  | withoutValues (count : Nat)

/-- The rows of an array with the number of features they have.  One line of values is
one row.  In an array of more than two dimensions every feature has a list of values,
and a list of one value stands for that value. -/
def Rows.ofGrid : Grid Float → Except Error (Nat × Rows)
  | .point _ => .error .outOfRange
  | .line row => .ok (row.length, .values [row])
  | .table width rows => .ok (width, .values rows)
  | .block shape cells =>
      let count := shape.getD 0 0
      let width := shape.getD 1 0
      if cells.length = count * width then
        let row (place : Nat) := (cells.drop (place * width)).take width
        .ok (width, .values ((List.range count).map row))
      else
        .ok (width, .withoutValues count)

namespace Model

/-- The rows of an input, which have to be of the features that the tree was fitted
to. -/
def rows (model : Model) (values : Nested Float) : Except Error Rows := do
  let (width, rows) ← Rows.ofGrid (← values.grid)
  if width ≠ model.features.size then
    throw (.featureCountDiffers width model.features.size)
  pure rows

/-- The leaves that the rows of an input reach.  Rows without values reach the only leaf
of a tree that does not split. -/
def leaves (model : Model) (values : Nested Float) : Except Error (List (Leaf Float)) := do
  match ← model.rows values with
  | .values rows =>
      rows.mapM fun row =>
        match model.tree.leafFor? row with
        | some leaf => .ok leaf
        | none => .error .outOfRange
  | .withoutValues count =>
      match model.tree with
      | .leaf leaf => pure (List.replicate count leaf)
      | .split .. => throw .wrongKind

/-- The labels predicted for the rows of an input. -/
def predict (model : Model) (values : Nested Float) : Except Error (List Label) := do
  (← model.leaves values).mapM fun leaf =>
    match Position.get? model.classes leaf.labelId with
    | some label => .ok label
    | none => .error .outOfRange

/-- The label distributions of the leaves that the rows of an input reach, one row each,
and the length of the rows. -/
def probabilities (model : Model) (values : Nested Float) :
    Except Error (Nat × List (List Float)) := do
  let rows := (← model.leaves values).map Leaf.distribution
  pure ((rows.head?.map List.length).getD model.classes.length, rows)

/-- Floats that are 64-bit integers name classes, too; other floats are quantities. -/
def isClassLabel : Label → Bool
  | .null => false
  | .float value =>
      (Binary64.ofFloat value).toInt?.any fun value =>
        -0x8000000000000000 ≤ value && value < 0x8000000000000000
  | _ => true

/-- Checks that labels name classes.  Labels that were not brought to one kind have to be
texts. -/
def checkClasses (ofOneKind : Bool) (labels : List Label) : Except Error Unit :=
  if ofOneKind then
    if labels.all isClassLabel then .ok () else .error .badValue
  else if labels.head?.all Atom.isText then
    if labels.all Atom.isText then .ok () else .error .wrongKind
  else
    .error .badValue

/-- The labels of one line or one column. -/
def lineOfLabels : Grid Label → Except Error (List Label)
  | .line labels => .ok labels
  | .table 1 rows => .ok rows.flatten
  | .point (.text _) => .error .badValue
  | .point _ => .error .wrongKind
  | _ => .error .badValue

/-- The share of rows whose label is predicted. -/
def score (model : Model) (values : Nested Float) (labels : Nested Label) :
    Except Error Float := do
  let predicted ← model.predict values
  let labels ← lineOfLabels (← labels.grid)
  if labels.length ≠ predicted.length then throw .badValue
  checkClasses (Atom.kindOf labels != .mixed) (Atom.uniform labels)
  checkClasses (Atom.kindOf model.classes != .mixed) predicted
  let right := ((Atom.uniform labels).zip predicted).countP fun (label, guess) => label.equal guess
  pure (Float.ofNat right / Float.ofNat labels.length)

/-- The names for a report: those given, or those seen when the tree was fitted. -/
def names (model : Model) (features classes : Option (List String)) : Report.Names where
  features := features.getD model.features.names
  classes := classes

end Model

/-- The formats that drawings can be asked for in. -/
def drawingFormats : List String :=
  ["bmp", "canon", "dot", "gv", "xdot", "xdot1.2", "xdot1.4", "cgimage", "cmap", "eps", "exr",
    "fig", "gd", "gd2", "gif", "gtk", "ico", "imap", "cmapx", "imap_np", "cmapx_np", "ismap",
    "jp2", "jpg", "jpeg", "jpe", "json", "json0", "dot_json", "xdot_json", "kitty", "kittyz",
    "pct", "pict", "pdf", "pic", "plain", "plain-ext", "png", "pov", "ps", "ps2", "psd", "sgi",
    "svg", "svgz", "svg_inline", "tga", "tif", "tiff", "tk", "vml", "vmlz", "vrml", "vt",
    "vt-24bit", "wbmp", "webp", "xlib", "x11"]

/-- The drawing of the fitted tree in the DOT language.  An image format that is not
known is refused; one that is known falls back to the same text. -/
def draw (classifier : Classifier) (available : Bool) (format : String)
    (features classes : Option (List String)) : Except Error String := do
  let model ← classifier.fitted
  if !available then throw .drawingUnavailable
  if !drawingFormats.contains format.toLower then throw .badValue
  pure (Report.Dot.text (← Report.drawing (model.names features classes) model.tree))

/-- Changes parameters one by one until one is unknown. -/
def setParameters (classifier : Classifier) : List Parameter → Classifier × Option Error
  | [] => (classifier, none)
  | parameter :: rest =>
      match classifier.settings.set? parameter with
      | none => (classifier, some .badValue)
      | some settings => setParameters { classifier with settings } rest

/-- A classifier with the same parameters that is not fitted. -/
def unfitted (classifier : Classifier) : Classifier :=
  { classifier with model := none }

end Classifier

end DecisionTree
