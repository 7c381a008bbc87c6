import DecisionTree.Classifier.Basic
import DecisionTree.Proofs.Binary64.Order
import DecisionTree.Proofs.Outcome
import DecisionTree.Proofs.Report.Names

/-!
# Rules distinguish the cases of a tree

The rule of a leaf lists the conditions on the path to it (`Tree.paths_eq`).  For inputs that are
numbers, the conditions of a path are met exactly if the input takes that path
(`Tree.met_iff_route?`): at a threshold that is a number, "above" is the denial of "at most".  So of
all rules exactly one applies to an input, and its leaf is the one that the input reaches
(`rules_distinguish_cases`).
-/

namespace DecisionTree

variable {α : Type}

/-- An input has a value of the feature, on the side of the threshold that is asked for. -/
def Condition.Met [Scalar α] (input : List α) (condition : Condition α) : Prop :=
  ∃ value, Position.get? input condition.feature = some value ∧
    if condition.atMost then Scalar.le value condition.threshold = true
    else Scalar.lt condition.threshold value = true

/-- The condition at a split is met on the side that a number is sent to. -/
theorem Condition.met_iff [Scalar α] [Scalar.Ordered α] {input : List α} {feature : Int}
    {threshold value : α} (found : Position.get? input feature = some value)
    (number : Scalar.isNumber value = true) (comparable : Scalar.isNumber threshold = true)
    (goesLeft : Bool) :
    Condition.Met input { feature, threshold, atMost := goesLeft } ↔
      Scalar.le value threshold = goesLeft := by
  have above := Scalar.Ordered.le_eq_not_lt number comparable
  simp only [Condition.Met, found, Option.some.injEq, exists_eq_left']
  cases goesLeft with
  | true => rfl
  | false =>
      rw [if_neg Bool.false_ne_true, above, Bool.not_eq_false']

namespace Tree

/-- A test that the feature and the threshold of every split pass. -/
def EverySplit (test : Int → α → Prop) : Tree α → Prop
  | .leaf _ => True
  | .split feature threshold _ left right =>
      test feature threshold ∧ left.EverySplit test ∧ right.EverySplit test

/-- The conditions of the splits that a path passes through, from the root down. -/
def conditionsOn : Tree α → List Bool → List (Condition α)
  | .split feature threshold _ left _, true :: path =>
      { feature, threshold, atMost := true } :: left.conditionsOn path
  | .split feature threshold _ _ right, false :: path =>
      { feature, threshold, atMost := false } :: right.conditionsOn path
  | _, _ => []

/-- The rules are about the leaves from left to right, each under the conditions on the path to
it. -/
theorem paths_eq (tree : Tree α) :
    tree.paths = tree.leaves.map fun (path, reached) => (tree.conditionsOn path, reached) := by
  induction tree with
  | leaf reached => rfl
  | split feature threshold impurity left right leftIh rightIh =>
      rw [paths, leaves, leftIh, rightIh, List.map_append, List.map_map, List.map_map,
        List.map_map, List.map_map]
      rfl

variable [Scalar α] {tree : Tree α} {input : List α}

/-- An input with all features that are asked for takes some path to a leaf. -/
theorem exists_route?
    (covered : tree.EverySplit fun feature _ => (Position.get? input feature).isSome = true) :
    ∃ path reached, tree.route? input = some path ∧ tree.leafAt? path = some reached := by
  induction tree with
  | leaf reached => exact ⟨[], reached, rfl, rfl⟩
  | split feature threshold impurity left right leftIh rightIh =>
      obtain ⟨asked, lefts, rights⟩ := covered
      obtain ⟨value, found⟩ := Option.isSome_iff_exists.mp asked
      cases side : Scalar.le value threshold with
      | true =>
          obtain ⟨path, reached, taken, leaf⟩ := leftIh lefts
          exact ⟨true :: path, reached, (route?_split found true path).mpr ⟨side, taken⟩, leaf⟩
      | false =>
          obtain ⟨path, reached, taken, leaf⟩ := rightIh rights
          exact ⟨false :: path, reached, (route?_split found false path).mpr ⟨side, taken⟩, leaf⟩

variable [Scalar.Ordered α]

/-- An input of numbers meets the conditions on the path that it takes, and on no other path to a
leaf. -/
theorem met_iff_route? (numbers : ∀ number ∈ input, Scalar.isNumber number = true)
    (comparable : tree.EverySplit fun _ threshold => Scalar.isNumber threshold = true)
    (covered : tree.EverySplit fun feature _ => (Position.get? input feature).isSome = true)
    {path : List Bool} {reached : Leaf α} (leaf : tree.leafAt? path = some reached) :
    (∀ condition ∈ tree.conditionsOn path, condition.Met input) ↔
      tree.route? input = some path := by
  induction tree generalizing path with
  | leaf own =>
      cases path with
      | nil => simp [conditionsOn, route?]
      | cons goesLeft path => cases leaf
  | split feature threshold impurity left right leftIh rightIh =>
      obtain ⟨isNumber, leftsComparable, rightsComparable⟩ := comparable
      obtain ⟨asked, leftsCovered, rightsCovered⟩ := covered
      obtain ⟨value, found⟩ := Option.isSome_iff_exists.mp asked
      have met := Condition.met_iff found (numbers value (Position.mem_of_get? found)) isNumber
      cases path with
      | nil => cases leaf
      | cons goesLeft path =>
          rw [route?_split found]
          cases goesLeft with
          | true =>
              rw [conditionsOn, List.forall_mem_cons, met,
                leftIh leftsComparable leftsCovered leaf, if_pos rfl]
          | false =>
              rw [conditionsOn, List.forall_mem_cons, met,
                rightIh rightsComparable rightsCovered leaf, if_neg Bool.false_ne_true]

end Tree

namespace Report

variable {names : Names} {tree : Tree Float}

/-- The text of the rule about a leaf at the end of a path. -/
def ruleOf (names : Names) (tree : Tree Float) (item : List Bool × Leaf Float) :
    Except Error String := do
  pure (ruleText names (tree.conditionsOn item.1) (← names.label item.2))

theorem ruleOf_eq_ok {item : List Bool × Leaf Float} {line : String} :
    ruleOf names tree item = .ok line ↔ ∃ label, names.label item.2 = .ok label ∧
      ruleText names (tree.conditionsOn item.1) label = line := by
  rw [ruleOf, Outcome.bind_eq_ok]
  simp only [pure, Except.pure, Except.ok.injEq]

/-- There is one rule for each leaf, from left to right. -/
theorem rules_eq (names : Names) (tree : Tree Float) :
    rules names tree = tree.leaves.mapM (ruleOf names tree) := by
  rw [rules, tree.paths_eq, List.mapM_map]
  rfl

/-- Rules can be written if all leaves can be labelled. -/
theorem exists_rules_iff :
    (∃ lines, rules names tree = .ok lines) ↔ ∀ path reached,
      tree.leafAt? path = some reached → ∃ label, names.label reached = .ok label := by
  rw [rules_eq]
  constructor
  · rintro ⟨lines, written⟩ path reached leaf
    obtain ⟨line, -, ruled⟩ := Outcome.mem_of_mapM written (Tree.mem_leaves.mpr leaf)
    obtain ⟨label, labelled, -⟩ := ruleOf_eq_ok.mp ruled
    exact ⟨label, labelled⟩
  · intro labelled
    refine Outcome.exists_mapM_eq_ok fun item member => ?_
    obtain ⟨label, found⟩ := labelled item.1 item.2 (Tree.mem_leaves.mp member)
    exact ⟨_, ruleOf_eq_ok.mpr ⟨label, found, rfl⟩⟩

/-- An input of numbers that has all features asked for, in a tree whose thresholds are numbers,
meets the conditions of exactly one path to a leaf, and that leaf is the one it reaches.  There are
as many rules as leaves, provided that the class names reach up to all label ids.  They come in the
order of the leaves from left to right.  Each lists the conditions of its path from the root down,
with features shown by the names that are given or else by those of the model, and then the class
name, or the label, of its leaf. -/
theorem rules_distinguish_cases (model : Classifier.Model) :
    (∀ input : List Float, (∀ number ∈ input, Scalar.isNumber number = true) →
      (model.tree.EverySplit fun _ threshold => Scalar.isNumber threshold = true) →
      (model.tree.EverySplit fun feature _ => (Position.get? input feature).isSome = true) →
      ∃ path reached, model.tree.leafAt? path = some reached ∧
        (∀ condition ∈ model.tree.conditionsOn path, condition.Met input) ∧
        model.tree.leafFor? input = some reached ∧
        ∀ other another, model.tree.leafAt? other = some another →
          (∀ condition ∈ model.tree.conditionsOn other, condition.Met input) → other = path) ∧
    ∃ routes : List (List Bool), routes.length = model.tree.leafCount ∧
      routes.Pairwise Tree.LeftOf ∧
      (∀ path, path ∈ routes ↔ ∃ reached, model.tree.leafAt? path = some reached) ∧
      ∀ features classes : Option (List String),
        ((∃ lines, rules (model.names features classes) model.tree = .ok lines) ↔
          CoversLabels classes model.tree) ∧
        ∃ shown, ShowsFeatures (features.getD model.features.names) shown ∧
          ∀ lines, rules (model.names features classes) model.tree = .ok lines →
            lines.length = model.tree.leafCount ∧
            ∀ (place : Nat) (path : List Bool) (reached : Leaf Float),
              routes[place]? = some path → model.tree.leafAt? path = some reached →
              ∃ label, ShowsLabel classes reached label ∧ lines[place]? = some (
                (if (model.tree.conditionsOn path).isEmpty then "<root>"
                  else " AND ".intercalate ((model.tree.conditionsOn path).map fun condition =>
                    shown condition.feature ++ (if condition.atMost then " <= " else " > ") ++
                      Decimal.Fixed.text 4 condition.threshold)) ++ " => " ++ label) := by
  constructor
  · intro input numbers comparable covered
    obtain ⟨path, reached, taken, leaf⟩ := Tree.exists_route? covered
    refine ⟨path, reached, leaf, (Tree.met_iff_route? numbers comparable covered leaf).mpr taken,
      ?_, ?_⟩
    · rw [Tree.leafFor?_eq, taken, Option.bind_some, leaf]
    · intro other another otherLeaf met
      have otherTaken := (Tree.met_iff_route? numbers comparable covered otherLeaf).mp met
      exact Option.some.inj (otherTaken.symm.trans taken)
  refine ⟨model.tree.leaves.map Prod.fst, by rw [List.length_map, model.tree.length_leaves],
    model.tree.pairwise_leaves, ?_, ?_⟩
  · intro path
    simp only [List.mem_map, Prod.exists, Tree.mem_leaves, exists_and_right, exists_eq_right]
  intro features classes
  refine ⟨exists_rules_iff.trans Names.labels_iff, _,
    Names.showsFeatures (model.names features classes), ?_⟩
  intro lines written
  rw [rules_eq] at written
  have pairs := Outcome.mapM_eq_ok.mp written
  refine ⟨by rw [← pairs.length_eq, model.tree.length_leaves], ?_⟩
  intro place path reached isPath leaf
  rw [List.getElem?_map, Option.map_eq_some_iff] at isPath
  obtain ⟨⟨path, other⟩, found, rfl⟩ := isPath
  obtain ⟨inside, itemEq⟩ := List.getElem?_eq_some_iff.mp found
  have same := Tree.mem_leaves.mp (List.mem_of_getElem? found)
  obtain rfl := Option.some.inj (same.symm.trans leaf)
  have line := pairs.get inside (pairs.length_eq ▸ inside)
  rw [List.get_eq_getElem, itemEq] at line
  obtain ⟨label, labelled, text⟩ := ruleOf_eq_ok.mp line
  refine ⟨label, Names.label_eq_ok.mp labelled, ?_⟩
  rw [List.getElem?_eq_getElem (pairs.length_eq ▸ inside)]
  exact congrArg some text.symm

/-- A model with the tree of ranges, which has seen names for both features. -/
def Sample.model : Classifier.Model where
  tree := ranges
  nodeCount := 5
  classes := [.text "low", .text "middle", .text "high"]
  features := ⟨["width", "height"], by decide⟩
  labels := ⟨[.text "low", .text "middle", .text "high"], by decide⟩

/-- Three eighths go left at a half, and one half goes right at a quarter.  The input meets the
conditions of no other path.  One of the three rules says so: with the names of the model and class
names, or with a single name, so that the second feature is shown by its id, and the label.  Two
class names are not enough. -/
theorem rules_distinguish_cases_sample :
    (∀ number ∈ [(0.375 : Float), 0.5], Scalar.isNumber number = true) ∧
    (Sample.model.tree.EverySplit fun _ threshold => Scalar.isNumber threshold = true) ∧
    (Sample.model.tree.EverySplit fun feature _ =>
      (Position.get? [(0.375 : Float), 0.5] feature).isSome = true) ∧
    Sample.model.tree.leafFor? [0.375, 0.5] = some (Sample.certain "middle" 1) ∧
    (∀ other another, Sample.model.tree.leafAt? other = some another →
      (∀ condition ∈ Sample.model.tree.conditionsOn other, condition.Met [0.375, 0.5]) →
        other = [true, false]) ∧
    (∃ lines, rules (Sample.model.names none (some ["S", "M", "L"])) Sample.model.tree =
        .ok lines ∧ lines.length = 3 ∧ "width <= 0.5000 AND height > 0.2500 => M" ∈ lines) ∧
    (∃ lines, rules (Sample.model.names (some ["x"]) none) Sample.model.tree = .ok lines ∧
      lines.length = 3 ∧ "x <= 0.5000 AND X[1] > 0.2500 => middle" ∈ lines) ∧
    ¬ ∃ lines, rules (Sample.model.names none (some ["S", "M"])) Sample.model.tree =
      .ok lines := by
  have numbers : ∀ number ∈ [(0.375 : Float), 0.5], Scalar.isNumber number = true := by
    decide +kernel
  have comparable : Sample.model.tree.EverySplit fun _ threshold =>
      Scalar.isNumber threshold = true := by
    refine ⟨?_, ⟨?_, trivial, trivial⟩, trivial⟩ <;> decide +kernel
  have covered : Sample.model.tree.EverySplit fun feature _ =>
      (Position.get? [(0.375 : Float), 0.5] feature).isSome = true :=
    ⟨rfl, ⟨rfl, trivial, trivial⟩, trivial⟩
  obtain ⟨cases, routes, -, -, isRoute, ruled⟩ := rules_distinguish_cases Sample.model
  obtain ⟨path, reached, leaf, met, found, unique⟩ := cases [0.375, 0.5] numbers comparable covered
  have onPath : [true, false] = path := by
    refine unique _ _ rfl fun condition member => ?_
    rcases List.mem_pair.mp member with rfl | rfl
    · exact ⟨0.375, rfl, by decide +kernel⟩
    · exact ⟨0.5, rfl, by decide +kernel⟩
  subst onPath
  obtain rfl := Option.some.inj leaf
  obtain ⟨place, isPlace⟩ := List.getElem?_of_mem ((isRoute [true, false]).mpr ⟨_, leaf⟩)
  -- The rule about this leaf, whatever the names are.
  have middle (features classes : Option (List String))
      (covers : CoversLabels classes Sample.model.tree) :
      ∃ lines shown label, rules (Sample.model.names features classes) Sample.model.tree =
          .ok lines ∧ lines.length = 3 ∧
        ShowsFeatures (features.getD ["width", "height"]) shown ∧
        ShowsLabel classes (Sample.certain "middle" 1) label ∧
        (" AND ".intercalate [shown 0 ++ " <= " ++ Decimal.Fixed.text 4 0.5,
          shown 1 ++ " > " ++ Decimal.Fixed.text 4 0.25] ++ " => " ++ label) ∈ lines := by
    obtain ⟨written, shown, shows, listed⟩ := ruled features classes
    obtain ⟨lines, linesEq⟩ := written.mpr covers
    obtain ⟨count, text⟩ := listed lines linesEq
    obtain ⟨label, labelled, line⟩ := text place _ _ isPlace leaf
    exact ⟨lines, shown, label, linesEq, count, shows, labelled, List.mem_of_getElem? line⟩
  refine ⟨numbers, comparable, covered, found, unique, ?_, ?_, ?_⟩
  · obtain ⟨lines, shown, label, linesEq, count, shows, labelled, member⟩ :=
      middle none (some ["S", "M", "L"]) (Sample.coversLabels_iff.mpr (by decide))
    obtain ⟨none, -⟩ | ⟨given, isGiven, isLabel⟩ := labelled
    · cases none
    obtain rfl := Option.some.inj isGiven
    obtain rfl := Option.some.inj isLabel
    have first : shown 0 = "width" := shows.named 0 _ rfl
    have second : shown 1 = "height" := shows.named 1 _ rfl
    rw [first, second] at member
    have line : " AND ".intercalate ["width" ++ " <= " ++ Decimal.Fixed.text 4 0.5,
        "height" ++ " > " ++ Decimal.Fixed.text 4 0.25] ++ " => " ++ "M" =
          "width <= 0.5000 AND height > 0.2500 => M" := by decide +kernel
    exact ⟨lines, linesEq, count, line ▸ member⟩
  · obtain ⟨lines, shown, label, linesEq, count, shows, labelled, member⟩ :=
      middle (some ["x"]) none fun _ isGiven => nomatch isGiven
    obtain ⟨-, rfl⟩ | ⟨given, isGiven, -⟩ := labelled
    swap
    · cases isGiven
    have first : shown 0 = "x" := shows.named 0 _ rfl
    have second : shown 1 = "X[1]" := shows.unnamed 1 (.inr (by decide))
    rw [first, second] at member
    have line : " AND ".intercalate ["x" ++ " <= " ++ Decimal.Fixed.text 4 0.5,
        "X[1]" ++ " > " ++ Decimal.Fixed.text 4 0.25] ++ " => " ++ "middle" =
          "x <= 0.5000 AND X[1] > 0.2500 => middle" := by decide +kernel
    exact ⟨lines, linesEq, count, line ▸ member⟩
  · rw [(ruled none (some ["S", "M"])).1]
    exact fun covers => absurd (Sample.coversLabels_iff.mp covers) (by decide)

end Report

end DecisionTree
