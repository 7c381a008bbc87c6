import DecisionTree.Report.Names

/-!
# A tree as an indented outline

A split is written as an `if` line, the outline of its left side, an `else` line and
the outline of its right side, both sides two columns further in.
-/

namespace DecisionTree.Report

/-- The lines of a tree's outline behind the given indentation. -/
def outlineLines (names : Names) (indentation : String) : Tree Float → Except Error (List String)
  | .leaf leaf => do
      let label ← names.label leaf
      pure [indentation ++ "Predict " ++ label ++ " | dist=" ++ distributionText leaf]
  | .split feature threshold _ left right => do
      let inner := indentation ++ "  "
      let lefts ← outlineLines names inner left
      let rights ← outlineLines names inner right
      let question := names.feature feature ++ " <= " ++ thresholdText threshold
      pure ((indentation ++ "if " ++ question ++ ":") :: lefts ++
        (indentation ++ "else:") :: rights)

/-- The outline of a tree; every line ends with a line feed. -/
def outline (names : Names) (tree : Tree Float) : Except Error String := do
  pure (String.join ((← outlineLines names "" tree).map (· ++ "\n")))

end DecisionTree.Report
