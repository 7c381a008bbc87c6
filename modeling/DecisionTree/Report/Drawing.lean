import DecisionTree.Report.Names

/-!
# A tree as a directed graph

The drawing of a tree has one vertex for each node and two edges from each split.  A
vertex is named after its path: the digit zero for the root, and a letter more for
each turn to the left or right.  The statements of a split come in the order: its
vertex, its left side, its right side, and last its two edges.

The drawing is written in the DOT language.  Labels stand between double quotes; a
double quote inside is escaped unless an odd number of backslashes stands before it
already.
-/

namespace DecisionTree.Report

/-- A step from a split to one of its sides. -/
inductive Turn where
  | left
  | right
  deriving DecidableEq, Repr

/-- The vertex or edge of a drawing.  A path lists the turns from the root down. -/
inductive Statement where
  | leafVertex (path : List Turn) (label : String)
  | splitVertex (path : List Turn) (label : String)
  | edge (source target : List Turn) (answer : Bool)
  deriving DecidableEq, Repr

/-- The statements that draw a tree below a path. -/
def drawingBelow (names : Names) (path : List Turn) : Tree Float → Except Error (List Statement)
  | .leaf leaf => do
      let label ← names.label leaf
      pure [.leafVertex path ("class=" ++ label ++ "\n" ++ distributionText leaf)]
  | .split feature threshold _ left right => do
      let leftPath := path ++ [Turn.left]
      let rightPath := path ++ [Turn.right]
      let lefts ← drawingBelow names leftPath left
      let rights ← drawingBelow names rightPath right
      let label := names.feature feature ++ " <= " ++ thresholdText threshold
      pure (.splitVertex path label :: lefts ++ rights ++
        [.edge path leftPath true, .edge path rightPath false])

/-- The statements that draw a whole tree. -/
def drawing (names : Names) (tree : Tree Float) : Except Error (List Statement) :=
  drawingBelow names [] tree

namespace Dot

def turnLetter : Turn → Char
  | .left => 'L'
  | .right => 'R'

/-- The name of the vertex at a path. -/
def vertexName (path : List Turn) : List Char :=
  '0' :: path.map turnLetter

/-- Different paths have different names. -/
theorem vertexName_injective {first second : List Turn}
    (same : vertexName first = vertexName second) : first = second := by
  refine List.map_inj_right (f := turnLetter) ?_ |>.mp (List.cons.inj same).2
  intro turn other letters
  cases turn <;> cases other <;> simp_all [turnLetter]

/-- A vertex name in the DOT language, where a number needs no quotes. -/
def vertexText (path : List Turn) : String :=
  let name := String.ofList (vertexName path)
  if path.isEmpty then name else "\"" ++ name ++ "\""

/-- Escapes the double quotes of a text.  `odd` says whether an odd number of
backslashes stands just before. -/
def escapeFrom (odd : Bool) : List Char → List Char
  | [] => []
  | '\\' :: rest => '\\' :: escapeFrom (!odd) rest
  | '"' :: rest =>
      if odd then '"' :: escapeFrom false rest else '\\' :: '"' :: escapeFrom false rest
  | char :: rest => char :: escapeFrom false rest

/-- A label between double quotes. -/
def quoted (label : String) : String :=
  "\"" ++ String.ofList (escapeFrom false label.toList) ++ "\""

/-- The line of a statement. -/
def line : Statement → String
  | .leafVertex path label =>
      "\t" ++ vertexText path ++ " [label=" ++ quoted label ++
        " color=lightgrey shape=box style=filled]\n"
  | .splitVertex path label =>
      "\t" ++ vertexText path ++ " [label=" ++ quoted label ++
        " color=lightblue shape=ellipse style=filled]\n"
  | .edge source target answer =>
      "\t" ++ vertexText source ++ " -> " ++ vertexText target ++ " [label=" ++
        (if answer then "True" else "False") ++ "]\n"

/-- A drawing in the DOT language. -/
def text (statements : List Statement) : String :=
  "digraph \x7b\n" ++ String.join (statements.map line) ++ "\x7d\n"

end Dot

end DecisionTree.Report
