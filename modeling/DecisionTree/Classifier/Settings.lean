import DecisionTree.Growth.Run
import DecisionTree.Setting.Reading

/-!
# The parameters of a classifier

Parameters are kept as they were given and are checked only when a tree is fitted.
`Settings.policy` turns settings that have passed the checks into the rules of growth.
-/

namespace DecisionTree.Classifier

/-- The parameters of a classifier, as given. -/
structure Settings where
  criterion : Criterion Float := .named (.atom (.text "gini"))
  splitter : Setting := .atom (.text "best")
  maxDepth : Setting := .atom .null
  minChildWeight : Setting := .atom (.float 5.0)
  minDecrease : Setting := .atom (.float 0.0)
  maxFeatures : Setting := .atom (.float 1.0)
  seed : Setting := .atom .null
  jobs : Setting := .atom (.int 1)
  featureNames : Setting := .atom .null

/-- A value for one parameter: by the parameter's name, or a measure as the criterion. -/
inductive Parameter where
  | named (name : String) (value : Setting)
  | measure (measure : Measure Float)

namespace Settings

/-- Sets a parameter; none if no parameter has the name. -/
def set? (settings : Settings) : Parameter → Option Settings
  | .measure measure => some { settings with criterion := .given measure }
  | .named name value =>
      match name with
      | "criterion" => some { settings with criterion := .named value }
      | "splitter" => some { settings with splitter := value }
      | "max_depth" => some { settings with maxDepth := value }
      | "min_child_weight" => some { settings with minChildWeight := value }
      | "min_impurity_decrease" => some { settings with minDecrease := value }
      | "max_features" => some { settings with maxFeatures := value }
      | "random_state" => some { settings with seed := value }
      | "n_jobs" => some { settings with jobs := value }
      | "feature_names" => some { settings with featureNames := value }
      | _ => none

/-- The standard settings with some parameters changed. -/
def ofParameters (parameters : List Parameter) : Except Error Settings :=
  parameters.foldlM
    (fun settings parameter =>
      match settings.set? parameter with
      | some settings => .ok settings
      | none => .error .wrongKind)
    {}

/-- How nodes are searched. -/
def splitter? : Setting → Except Error Growth.Splitter
  | .atom (.text "best") => .ok .best
  | .atom (.text "random") => .ok .random
  | given => .error (.unknownSplitter given)

/-- The depth limit, if there is one. -/
def depthLimit? (given : Setting) : Except Error (Option Nat) :=
  if given.isNull then .ok none
  else do
    let depth ← given.int?
    if depth < 0 then throw .negativeDepth
    pure (some depth.toNat)

/-- A float that may not be negative. -/
def nonNegative? (given : Setting) (refusal : Error) : Except Error Float := do
  let value ← given.float?
  if value < 0.0 then throw refusal
  pure value

/-- The share of the features that is drawn for each split. -/
def fraction? (given : Setting) : Except Error Float := do
  let value ← given.float?
  if 0.0 < value && value ≤ 1.0 then pure value else throw .fractionOutsideRange

/-- Seeds are 32-bit words. -/
def seedLimit : Int := 0x100000000

/-- The seed of the random numbers.  Without one, growth may draw but no answer may
depend on it, and the seed zero is as good as any. -/
def seed? : Setting → Except Error Nat
  | .atom .null => .ok 0
  | .atom (.bool value) => .ok (Atom.ofTruth value).toNat
  | .atom (.int value) =>
      if 0 ≤ value ∧ value < seedLimit then .ok value.toNat else .error .badValue
  | _ => .error .badValue

/-- The number of workers for a number of jobs: negative numbers count down from one
more than the number of processors, to one at least. -/
def workers? (processors : Nat) : Setting → Except Error Nat
  | .atom .null => .ok 1
  | .list _ | .record _ | .atom (.text _) => .error .wrongKind
  | given => do
      let jobs ← given.int?
      if ← isNegative given then
        pure (max 1 ((processors : Int) + 1 + jobs)).toNat
      else pure jobs.toNat
where
  isNegative (given : Setting) : Except Error Bool := do
    pure (decide ((← given.float?) < 0.0))

/-- The number of features drawn for each split: the given share of all, rounded up,
at least one and at most all. -/
def featuresDrawn (fraction : Float) (featureCount : Nat) : Nat :=
  min featureCount
    (max 1 (Binary64.ofFloat (fraction * Float.ofNat featureCount)).ceilNat)

/-- Parameters that have passed all checks but those of seed and jobs. -/
structure Checked where
  splitter : Growth.Splitter
  maxDepth : Option Nat
  minChildWeight : Float
  minDecrease : Float
  maxFeatures : Float
  measure : Measure Float

/-- The checks, in the order in which they are reported. -/
def check (settings : Settings) : Except Error Checked := do
  let splitter ← splitter? settings.splitter
  let maxDepth ← depthLimit? settings.maxDepth
  let minChildWeight ← nonNegative? settings.minChildWeight .negativeChildWeight
  let minDecrease ← nonNegative? settings.minDecrease .negativeDecrease
  let maxFeatures ← fraction? settings.maxFeatures
  if settings.jobs.isZero then throw .noJobs
  let measure ← settings.criterion.measure
  pure { splitter, maxDepth, minChildWeight, minDecrease, maxFeatures, measure }

/-- The rules of growth over a number of features with a number of workers. -/
def Checked.policy (checked : Checked) (featureCount workers : Nat) : Growth.Policy Float where
  measure := checked.measure
  splitter := checked.splitter
  maxDepth := checked.maxDepth
  minWeight := checked.minChildWeight
  minDecrease := checked.minDecrease
  featuresDrawn := featuresDrawn checked.maxFeatures featureCount
  workers := workers

end Settings

end DecisionTree.Classifier
