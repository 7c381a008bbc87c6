import DecisionTree.Error
import DecisionTree.Position

/-!
# Names of features

Features are referred to by ids `0 … n - 1`.  `FeatureNames` fixes the name of each
id; no name occurs twice, so a name also determines its id.
-/

namespace DecisionTree

/-- The names of all features, in id order. -/
structure FeatureNames where
  names : List String
  nodup : names.Nodup

namespace FeatureNames

/-- Takes the names as they come and refuses a repeated one. -/
def ofNames (names : List String) : Except Error FeatureNames :=
  if nodup : names.Nodup then .ok ⟨names, nodup⟩ else .error .repeatedFeatureName

def size (features : FeatureNames) : Nat :=
  features.names.length

/-- The id of a name.  Only texts name features. -/
def idOf? (features : FeatureNames) : Atom → Option Nat
  | .text name => features.names.findIdx? (· == name)
  | _ => none

/-- The name at an id; a negative id counts from the end. -/
def nameOf? (features : FeatureNames) (id : Int) : Option String :=
  Position.get? features.names id

def summary (features : FeatureNames) : String :=
  s!"FeatureMap(n_features={features.size})"

/-- Names for features that have none: the letter `f` and the id. -/
def standard (count : Nat) : List String :=
  (List.range count).map fun id => s!"f{id}"

end FeatureNames

end DecisionTree
