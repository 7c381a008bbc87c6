import DecisionTree.Proofs.Paths
import DecisionTree.Report.Names

/-!
# What reports show for features and labels

A feature is shown by its own name, or by its id if the names do not reach up to it
(`Names.showsFeatures`).  A leaf is shown by the class name of its label id; without class names the
text of its label is shown (`Names.label_eq_ok`).  So all leaves of a tree can be shown exactly if
the class names, if there are any, reach up to all label ids (`Names.labels_iff`).
-/

namespace DecisionTree

/-- A list has an element at every position from one end to the other. -/
theorem Position.exists_get?_iff {β : Type} {values : List β} {position : Int} :
    (∃ value, get? values position = some value) ↔
      -values.length ≤ position ∧ position < values.length := by
  have none_iff := @resolve_eq_none values.length position
  unfold get?
  cases named : resolve values.length position with
  | none =>
      rw [named] at none_iff
      have outside := none_iff.mp rfl
      simp only [Option.bind_none, reduceCtorEq, exists_false, false_iff]
      omega
  | some place =>
      have inside := not_congr none_iff |>.mp (by simp [named])
      rw [Option.bind_some, List.getElem?_eq_getElem (resolve_lt named)]
      simp only [Option.some.injEq, exists_eq', true_iff]
      omega

namespace Report

variable {α : Type} {names : Names} {leaf : Leaf α} {label : String}

/-- Features are shown by their names, and by their ids if they have none. -/
structure ShowsFeatures (features : List String) (shown : Int → String) : Prop where
  named : ∀ (place : Nat) (name : String), features[place]? = some name → shown place = name
  unnamed : ∀ id : Int, id < 0 ∨ features.length ≤ id → shown id = "X[" ++ toString id ++ "]"

/-- A leaf is shown by the class name of its label id, and by its label if no class names are
given. -/
def ShowsLabel (classes : Option (List String)) (leaf : Leaf α) (shown : String) : Prop :=
  (classes = none ∧ shown = leaf.label.plain) ∨
    ∃ given, classes = some given ∧ Position.get? given leaf.labelId = some shown

/-- No class names are given, or the label ids of all leaves are within them. -/
def CoversLabels (classes : Option (List String)) (tree : Tree α) : Prop :=
  ∀ given, classes = some given → ∀ path reached, tree.leafAt? path = some reached →
    -given.length ≤ reached.labelId ∧ reached.labelId < given.length

namespace Names

theorem showsFeatures (names : Names) : ShowsFeatures names.features names.feature where
  named := by
    intro place name found
    rw [feature, if_pos (Int.natCast_nonneg place), Int.toNat_natCast, List.getD_eq_getElem?_getD,
      found, Option.getD_some]
  unnamed := by
    intro id outside
    rw [feature]
    split
    next front =>
      rw [List.getD_eq_getElem?_getD, List.getElem?_eq_none (by omega), Option.getD_none]
      rfl
    next => rfl

theorem label_eq_ok : names.label leaf = .ok label ↔ ShowsLabel names.classes leaf label := by
  unfold Names.label ShowsLabel
  cases names.classes with
  | none => simp [eq_comm]
  | some classes =>
      dsimp only
      split
      next named => simp [named]
      next unnamed => simp [unnamed]

/-- A leaf can be shown if its label id is within the class names. -/
theorem exists_label_iff : (∃ label, names.label leaf = .ok label) ↔
    ∀ given, names.classes = some given →
      -given.length ≤ leaf.labelId ∧ leaf.labelId < given.length := by
  simp only [label_eq_ok, ShowsLabel]
  cases names.classes with
  | none => simp
  | some classes => simp [← Position.exists_get?_iff]

/-- All leaves of a tree can be shown if the class names reach up to them. -/
theorem labels_iff {tree : Tree α} :
    (∀ path reached, tree.leafAt? path = some reached → ∃ label, names.label reached = .ok label) ↔
      CoversLabels names.classes tree := by
  simp only [exists_label_iff]
  exact ⟨fun all given isGiven path reached leaf => all path reached leaf given isGiven,
    fun covers path reached leaf given isGiven => covers given isGiven path reached leaf⟩

end Names

/-- A leaf that is certain of its label. -/
def Sample.certain (label : String) (labelId : Nat) : Leaf Float where
  impurity := 0
  labelId := labelId
  label := .text label
  distribution := (List.replicate 3 0).set labelId 1
  labels := [.text "low", .text "middle", .text "high"]

/-- A tree that asks for one feature and then for another. -/
def Sample.ranges : Tree Float :=
  .split 0 0.5 0.5 (.split 1 0.25 0.5 (.leaf (certain "low" 0)) (.leaf (certain "middle" 1)))
    (.leaf (certain "high" 2))

/-- The label ids of the tree are 0, 1 and 2. -/
theorem Sample.coversLabels_iff {given : List String} :
    CoversLabels (some given) ranges ↔ 2 < given.length := by
  constructor
  · intro covers
    have last : (2 : Int) < given.length := (covers given rfl [false] _ rfl).2
    omega
  · intro reachesUp given isGiven path reached leaf
    obtain rfl := Option.some.inj isGiven
    have member : (path, reached) ∈ [([true, true], certain "low" 0),
      ([true, false], certain "middle" 1), ([false], certain "high" 2)] := Tree.mem_leaves.mpr leaf
    simp only [List.mem_cons, Prod.mk.injEq, List.not_mem_nil, or_false] at member
    rcases member with ⟨-, rfl⟩ | ⟨-, rfl⟩ | ⟨-, rfl⟩ <;> simp [certain] <;> omega

end Report

end DecisionTree
