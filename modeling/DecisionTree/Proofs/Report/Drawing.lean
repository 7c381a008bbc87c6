import DecisionTree.Proofs.Outcome
import DecisionTree.Proofs.Report.Names
import DecisionTree.Report.Drawing
import Mathlib.Data.List.Count

/-!
# The drawing of a tree is the tree

The vertices of a drawing are named after the addresses of the parts of a tree, and its edges lead
from a split to its two sides (`Report.of_drawingBelow`).  `Tree.branches` lists the latter in
the order of the drawing; their ends are all addresses but the root's (`Tree.branchEnds_perm`).
So a drawing is a tree again, and whoever follows its edges from the root on sees the skeleton of
the tree it was made from, and no other (`Report.drawing_is_tree`).
-/

namespace DecisionTree

/-- A tree without what its nodes say. -/
inductive Skeleton where
  | leaf
  | split (left right : Skeleton)

namespace Tree

variable {α : Type}

def skeleton : Tree α → Skeleton
  | .leaf _ => .leaf
  | .split _ _ _ left right => .split left.skeleton right.skeleton

/-- The steps that lead on from the root of a tree. -/
def sides : Tree α → List Bool
  | .leaf _ => []
  | .split .. => [true, false]

/-- The steps from a split to one of its sides: the address of the split, and whether the step goes
left.  Those below a split come before its own. -/
def branches : Tree α → List (List Bool × Bool)
  | .leaf _ => []
  | .split _ _ _ left right =>
      (left.branches.map fun (path, goesLeft) => (true :: path, goesLeft)) ++
        (right.branches.map fun (path, goesLeft) => (false :: path, goesLeft)) ++
        [([], true), ([], false)]

/-- Where the branches lead to. -/
def branchEnds (tree : Tree α) : List (List Bool) :=
  tree.branches.map fun (path, goesLeft) => path ++ [goesLeft]

theorem branchEnds_split (feature : Int) (threshold impurity : α) (left right : Tree α) :
    (split feature threshold impurity left right).branchEnds =
      left.branchEnds.map (true :: ·) ++ right.branchEnds.map (false :: ·) ++
        [[true], [false]] := by
  simp only [branchEnds, branches, List.map_append, List.map_map, Function.comp_def,
    List.cons_append, List.map_cons, List.map_nil, List.nil_append]

open scoped List in
/-- One branch leads to every part but the whole tree. -/
theorem branchEnds_perm (tree : Tree α) : [] :: tree.branchEnds ~ tree.addresses := by
  induction tree with
  | leaf reached => exact List.Perm.refl [[]]
  | split feature threshold impurity left right leftIh rightIh =>
      have lefts := leftIh.map (true :: ·)
      have rights := rightIh.map (false :: ·)
      rw [branchEnds_split, addresses]
      refine List.Perm.cons [] ?_
      calc
        left.branchEnds.map (true :: ·) ++ right.branchEnds.map (false :: ·) ++ [[true], [false]] ~
            [true] :: [false] ::
              (left.branchEnds.map (true :: ·) ++ right.branchEnds.map (false :: ·)) :=
          List.perm_append_comm
        _ ~ ([] :: left.branchEnds).map (true :: ·) ++ ([] :: right.branchEnds).map (false :: ·) :=
          List.Perm.cons [true] List.perm_middle.symm
        _ ~ left.addresses.map (true :: ·) ++ right.addresses.map (false :: ·) :=
          lefts.append rights

/-- The branches that start at a part of a tree. -/
theorem filter_branches {tree part : Tree α} {path : List Bool}
    (found : tree.subtreeAt? path = some part) :
    tree.branches.filter (fun branch => branch.1 == path) = part.sides.map (path, ·) := by
  induction tree generalizing path with
  | leaf reached =>
      cases path with
      | nil =>
          obtain rfl := Option.some.inj found
          rfl
      | cons goesLeft path => simp [subtreeAt?] at found
  | split feature threshold impurity left right leftIh rightIh =>
      rw [branches, List.filter_append, List.filter_append, List.filter_map, List.filter_map]
      cases path with
      | nil =>
          obtain rfl := Option.some.inj found
          simp [Function.comp_def, sides]
      | cons goesLeft path =>
          cases goesLeft with
          | true =>
              simp only [Function.comp_def, List.cons_beq_cons, beq_self_eq_true, Bool.true_and,
                leftIh found]
              cases part <;> simp
          | false =>
              simp only [Function.comp_def, List.cons_beq_cons, beq_self_eq_true, Bool.true_and,
                rightIh found]
              cases part <;> simp

/-- Branches start at parts of the tree. -/
theorem mem_addresses_of_mem_branches {tree : Tree α} {path : List Bool} {goesLeft : Bool}
    (member : (path, goesLeft) ∈ tree.branches) : path ∈ tree.addresses := by
  induction tree generalizing path with
  | leaf reached => cases member
  | split feature threshold impurity left right leftIh rightIh =>
      simp only [branches, List.mem_append, List.mem_map, Prod.exists, Prod.mk.injEq] at member
      rw [addresses]
      rcases member with (⟨below, side, isLeft, rfl, rfl⟩ | ⟨below, side, isRight, rfl, rfl⟩) | own
      · exact List.mem_cons_of_mem _ (List.mem_append_left _ (List.mem_map_of_mem (leftIh isLeft)))
      · exact List.mem_cons_of_mem _
          (List.mem_append_right _ (List.mem_map_of_mem (rightIh isRight)))
      · rcases List.mem_pair.mp own with same | same <;> simp [(Prod.mk.inj same).1]

end Tree

namespace Report

/-- The name of the part of a tree at an address: zero, and a letter for each step. -/
def nameAt (path : List Bool) : List Char :=
  '0' :: path.map fun goesLeft => if goesLeft then 'L' else 'R'

/-- An arrow between two named vertices. -/
structure Arrow where
  source : List Char
  target : List Char
  answer : Bool
  deriving DecidableEq

/-- The arrow of a branch. -/
def arrowAt (path : List Bool) (goesLeft : Bool) : Arrow where
  source := nameAt path
  target := nameAt (path ++ [goesLeft])
  answer := goesLeft

namespace Statement

/-- The name under which a statement declares a vertex. -/
def vertexName? : Statement → Option (List Char)
  | .leafVertex path _ => some (Dot.vertexName path)
  | .splitVertex path _ => some (Dot.vertexName path)
  | .edge .. => none

/-- The arrow that a statement draws. -/
def arrow? : Statement → Option Arrow
  | .edge source target answer =>
      some { source := Dot.vertexName source, target := Dot.vertexName target, answer }
  | .leafVertex .. => none
  | .splitVertex .. => none

end Statement

/-- The names of all vertices, in the order of their declaration. -/
def vertexNames (statements : List Statement) : List (List Char) :=
  statements.filterMap Statement.vertexName?

def arrows (statements : List Statement) : List Arrow :=
  statements.filterMap Statement.arrow?

/-- What is seen from a vertex by following arrows: a leaf if none starts there, and otherwise what
is seen at the end of a true and of a false one. -/
inductive Sees (arrows : List Arrow) : List Char → Skeleton → Prop
  | leaf {name : List Char} (last : ∀ arrow ∈ arrows, arrow.source ≠ name) : Sees arrows name .leaf
  | split {name below above : List Char} {left right : Skeleton}
      (yes : { source := name, target := below, answer := true } ∈ arrows)
      (no : { source := name, target := above, answer := false } ∈ arrows)
      (lefts : Sees arrows below left) (rights : Sees arrows above right) :
      Sees arrows name (.split left right)

/-- The turn of a step. -/
def turn (goesLeft : Bool) : Turn :=
  if goesLeft then .left else .right

theorem vertexName_turns (path : List Bool) : Dot.vertexName (path.map turn) = nameAt path := by
  rw [Dot.vertexName, nameAt, List.map_map]
  congr 2
  funext goesLeft
  cases goesLeft <;> rfl

theorem nameAt_injective : Function.Injective nameAt := by
  intro path other same
  rw [← vertexName_turns, ← vertexName_turns] at same
  refine List.map_injective_iff.mpr ?_ (Dot.vertexName_injective same)
  intro goesLeft side turns
  cases goesLeft <;> cases side <;> first | rfl | cases turns

variable {names : Names} {tree : Tree Float} {statements : List Statement}

theorem vertexNames_split (path leftPath rightPath : List Turn) (label : String)
    (lefts rights : List Statement) :
    vertexNames (.splitVertex path label :: lefts ++ rights ++
        [.edge path leftPath true, .edge path rightPath false]) =
      Dot.vertexName path :: (vertexNames lefts ++ vertexNames rights) := by
  simp [vertexNames, Statement.vertexName?]

theorem arrows_split (path leftPath rightPath : List Turn) (label : String)
    (lefts rights : List Statement) :
    arrows (.splitVertex path label :: lefts ++ rights ++
        [.edge path leftPath true, .edge path rightPath false]) =
      arrows lefts ++ arrows rights ++
        [Arrow.mk (Dot.vertexName path) (Dot.vertexName leftPath) true,
          Arrow.mk (Dot.vertexName path) (Dot.vertexName rightPath) false] := by
  simp [arrows, List.filterMap_cons, Statement.arrow?]

/-- The vertices of a drawing are the parts of the tree, and its arrows the branches. -/
theorem of_drawingBelow (base : List Bool)
    (drawn : drawingBelow names (base.map turn) tree = .ok statements) :
    vertexNames statements = tree.addresses.map (fun path => nameAt (base ++ path)) ∧
      arrows statements =
        tree.branches.map fun branch => arrowAt (base ++ branch.1) branch.2 := by
  induction tree generalizing base statements with
  | leaf reached =>
      obtain ⟨label, -, same⟩ := Outcome.bind_eq_ok.mp drawn
      obtain rfl := Except.ok.inj same
      constructor
      · simp [vertexNames, Statement.vertexName?, Tree.addresses, vertexName_turns]
      · rfl
  | split feature threshold impurity left right leftIh rightIh =>
      have leftStep : base.map turn ++ [Turn.left] = (base ++ [true]).map turn := by simp [turn]
      have rightStep : base.map turn ++ [Turn.right] = (base ++ [false]).map turn := by simp [turn]
      obtain ⟨lefts, leftDrawn, later⟩ := Outcome.bind_eq_ok.mp drawn
      obtain ⟨rights, rightDrawn, same⟩ := Outcome.bind_eq_ok.mp later
      obtain rfl := Except.ok.inj same
      rw [leftStep] at leftDrawn ⊢
      rw [rightStep] at rightDrawn ⊢
      obtain ⟨leftNames, leftArrows⟩ := leftIh _ leftDrawn
      obtain ⟨rightNames, rightArrows⟩ := rightIh _ rightDrawn
      constructor
      · rw [vertexNames_split, leftNames, rightNames, vertexName_turns, Tree.addresses]
        simp [Function.comp_def]
      · rw [arrows_split, leftArrows, rightArrows, vertexName_turns, vertexName_turns,
          vertexName_turns, Tree.branches]
        simp [Function.comp_def, arrowAt]

/-- A tree can be drawn below a path if all leaves can be labelled. -/
theorem exists_drawingBelow_iff (path : List Turn) :
    (∃ statements, drawingBelow names path tree = .ok statements) ↔ ∀ address reached,
      tree.leafAt? address = some reached → ∃ label, names.label reached = .ok label := by
  induction tree generalizing path with
  | leaf own =>
      constructor
      · rintro ⟨statements, drawn⟩ address reached leaf
        obtain ⟨label, labelled, -⟩ := Outcome.bind_eq_ok.mp drawn
        cases address with
        | nil =>
            obtain rfl := Option.some.inj leaf
            exact ⟨label, labelled⟩
        | cons goesLeft address => cases leaf
      · intro labelled
        obtain ⟨label, found⟩ := labelled [] own rfl
        exact ⟨_, Outcome.bind_eq_ok.mpr ⟨label, found, rfl⟩⟩
  | split feature threshold impurity left right leftIh rightIh =>
      constructor
      · rintro ⟨statements, drawn⟩ address reached leaf
        obtain ⟨lefts, leftDrawn, later⟩ := Outcome.bind_eq_ok.mp drawn
        obtain ⟨rights, rightDrawn, -⟩ := Outcome.bind_eq_ok.mp later
        cases address with
        | nil => cases leaf
        | cons goesLeft address =>
            cases goesLeft with
            | true => exact (leftIh _).mp ⟨lefts, leftDrawn⟩ address reached leaf
            | false => exact (rightIh _).mp ⟨rights, rightDrawn⟩ address reached leaf
      · intro labelled
        obtain ⟨lefts, leftDrawn⟩ := (leftIh (path ++ [.left])).mpr fun address =>
          labelled (true :: address)
        obtain ⟨rights, rightDrawn⟩ := (rightIh (path ++ [.right])).mpr fun address =>
          labelled (false :: address)
        exact ⟨_, Outcome.bind_eq_ok.mpr
          ⟨lefts, leftDrawn, Outcome.bind_eq_ok.mpr ⟨rights, rightDrawn, rfl⟩⟩⟩

section Drawn

variable (drawn : drawing names tree = .ok statements)

include drawn

theorem vertexNames_eq : vertexNames statements = tree.addresses.map nameAt :=
  (of_drawingBelow [] drawn).1

theorem arrows_eq :
    arrows statements = tree.branches.map fun branch => arrowAt branch.1 branch.2 :=
  (of_drawingBelow [] drawn).2

/-- The arrows that start at a vertex. -/
theorem arrows_from {path : List Bool} {part : Tree Float}
    (found : tree.subtreeAt? path = some part) :
    (arrows statements).filter (fun arrow => arrow.source == nameAt path) =
      part.sides.map (arrowAt path) := by
  have same (branch : List Bool × Bool) :
      ((arrowAt branch.1 branch.2).source == nameAt path) = (branch.1 == path) := by
    rw [Bool.eq_iff_iff, beq_iff_eq, beq_iff_eq]
    exact nameAt_injective.eq_iff
  rw [arrows_eq drawn, List.filter_map]
  simp only [Function.comp_def, same, Tree.filter_branches found, List.map_map]

/-- One arrow leads to every part but the whole tree. -/
theorem count_targets {path : List Bool} (member : path ∈ tree.addresses) :
    ((arrows statements).map Arrow.target).count (nameAt path) = if path = [] then 0 else 1 := by
  have targets : (arrows statements).map Arrow.target = tree.branchEnds.map nameAt := by
    rw [arrows_eq drawn, List.map_map, Tree.branchEnds, List.map_map]
    rfl
  have once := tree.branchEnds_perm.count_eq path
  rw [List.count_eq_one_of_mem tree.nodup_addresses member, List.count_cons] at once
  rw [targets, List.count_map_of_injective _ _ nameAt_injective]
  by_cases root : path = []
  · subst root
    rw [if_pos rfl]
    simpa using once
  · have notRoot : ¬ ([] == path) = true := fun same => root (beq_iff_eq.mp same).symm
    rw [if_neg notRoot] at once
    rwa [if_neg root]

theorem mem_arrows_iff {path : List Bool} {part : Tree Float}
    (found : tree.subtreeAt? path = some part) (arrow : Arrow) :
    arrow ∈ arrows statements ∧ arrow.source = nameAt path ↔
      arrow ∈ part.sides.map (arrowAt path) := by
  rw [← arrows_from drawn found, List.mem_filter, beq_iff_eq]

/-- What is seen from the vertex of a part is the skeleton of the part. -/
theorem sees_iff {path : List Bool} {part : Tree Float} (found : tree.subtreeAt? path = some part)
    (skeleton : Skeleton) :
    Sees (arrows statements) (nameAt path) skeleton ↔ skeleton = part.skeleton := by
  induction part generalizing path skeleton with
  | leaf reached =>
      have none (arrow : Arrow) (member : arrow ∈ arrows statements) :
          arrow.source ≠ nameAt path :=
        fun own => List.not_mem_nil ((mem_arrows_iff drawn found arrow).mp ⟨member, own⟩)
      constructor
      · intro seen
        cases seen with
        | leaf last => rfl
        | split yes no lefts rights => exact absurd rfl (none _ yes)
      · rintro rfl
        exact .leaf none
  | split feature threshold impurity left right leftIh rightIh =>
      have starting := mem_arrows_iff drawn found
      have leftFound : tree.subtreeAt? (path ++ [true]) = some left := by
        simp [Tree.subtreeAt?_append, found, Tree.subtreeAt?]
      have rightFound : tree.subtreeAt? (path ++ [false]) = some right := by
        simp [Tree.subtreeAt?_append, found, Tree.subtreeAt?]
      have yes := ((starting (arrowAt path true)).mpr (by simp [Tree.sides])).1
      have no := ((starting (arrowAt path false)).mpr (by simp [Tree.sides])).1
      constructor
      · intro seen
        cases seen with
        | leaf last => exact absurd rfl (last _ yes)
        | @split _ below above _ _ yes no lefts rights =>
            have belowEq : below = nameAt (path ++ [true]) := by
              simpa [Tree.sides, arrowAt] using (starting _).mp ⟨yes, rfl⟩
            have aboveEq : above = nameAt (path ++ [false]) := by
              simpa [Tree.sides, arrowAt] using (starting _).mp ⟨no, rfl⟩
            subst belowEq aboveEq
            rw [(leftIh leftFound _).mp lefts, (rightIh rightFound _).mp rights]
            rfl
      · rintro rfl
        exact .split yes no ((leftIh leftFound _).mpr rfl) ((rightIh rightFound _).mpr rfl)

end Drawn

/-- A tree can be drawn if the class names reach up to all label ids, or none are given.  The
vertices of its drawing have different names, zero and the letters of a path, which are those of all
parts of the tree.  No arrow leads to the root, one leads to every other vertex; from a split one
leads to each of its sides, and all arrows join vertices.  So there is one vertex less than twice
the leaves, and one arrow less than vertices.  Following the arrows from the root shows the skeleton
of the tree, and no other. -/
theorem drawing_is_tree (names : Names) (tree : Tree Float) :
    ((∃ statements, drawing names tree = .ok statements) ↔ CoversLabels names.classes tree) ∧
    ∀ statements, drawing names tree = .ok statements →
      (vertexNames statements).Nodup ∧
      (∀ name, name ∈ vertexNames statements ↔ ∃ path, (tree.subtreeAt? path).isSome = true ∧
        name = '0' :: path.map fun goesLeft => if goesLeft then 'L' else 'R') ∧
      (∀ name ∈ vertexNames statements,
        ((arrows statements).map Arrow.target).count name = if name = ['0'] then 0 else 1) ∧
      (∀ path reached, tree.subtreeAt? path = some (.leaf reached) →
        (arrows statements).filter (fun arrow => arrow.source == nameAt path) = []) ∧
      (∀ path feature threshold impurity left right,
        tree.subtreeAt? path = some (.split feature threshold impurity left right) →
          (arrows statements).filter (fun arrow => arrow.source == nameAt path) =
            [{ source := nameAt path, target := nameAt path ++ ['L'], answer := true },
              { source := nameAt path, target := nameAt path ++ ['R'], answer := false }]) ∧
      (∀ arrow ∈ arrows statements,
        arrow.source ∈ vertexNames statements ∧ arrow.target ∈ vertexNames statements) ∧
      (vertexNames statements).length = 2 * tree.leafCount - 1 ∧
      (arrows statements).length + 1 = (vertexNames statements).length ∧
      ∀ skeleton, Sees (arrows statements) ['0'] skeleton ↔ skeleton = tree.skeleton := by
  refine ⟨(exists_drawingBelow_iff []).trans Names.labels_iff, fun statements drawn => ?_⟩
  have named := vertexNames_eq drawn
  have count : (vertexNames statements).length + 1 = 2 * tree.leafCount := by
    rw [named, List.length_map, tree.length_addresses]
  have isName (name : List Char) : name ∈ vertexNames statements ↔
      ∃ path ∈ tree.addresses, nameAt path = name := by
    rw [named, List.mem_map]
  refine ⟨?_, ?_, ?_, ?_, ?_, ?_, ?_, ?_, ?_⟩
  · rw [named]
    exact tree.nodup_addresses.map nameAt_injective
  · intro name
    simp only [isName, Tree.mem_addresses, eq_comm (a := name)]
    rfl
  · intro name member
    obtain ⟨path, isAddress, rfl⟩ := (isName name).mp member
    rw [count_targets drawn isAddress]
    refine if_congr ?_ rfl rfl
    exact (nameAt_injective.eq_iff' rfl).symm
  · intro path reached found
    exact arrows_from drawn found
  · intro path feature threshold impurity left right found
    rw [arrows_from drawn found]
    simp [Tree.sides, arrowAt, nameAt]
  · intro arrow member
    rw [arrows_eq drawn] at member
    obtain ⟨⟨path, goesLeft⟩, isBranch, rfl⟩ := List.mem_map.mp member
    have isEnd : path ++ [goesLeft] ∈ tree.branchEnds := List.mem_map.mpr ⟨_, isBranch, rfl⟩
    exact ⟨(isName _).mpr ⟨path, Tree.mem_addresses_of_mem_branches isBranch, rfl⟩,
      (isName _).mpr ⟨_, tree.branchEnds_perm.subset (List.mem_cons_of_mem _ isEnd), rfl⟩⟩
  · omega
  · have length := tree.branchEnds_perm.length_eq
    rw [List.length_cons, Tree.branchEnds, List.length_map] at length
    rw [arrows_eq drawn, named, List.length_map, List.length_map, length]
  · have whole : tree.subtreeAt? [] = some tree := by cases tree <;> rfl
    exact sees_iff drawn whole

/-- A tree with two splits is drawn with five vertices and four arrows, of which two lead from the
root to a split and to a leaf.  It cannot be drawn with less than three class names. -/
theorem drawing_is_tree_sample :
    (∃ statements, drawing { features := [], classes := some ["S", "M", "L"] } Sample.ranges =
        .ok statements ∧
      (vertexNames statements).Nodup ∧ (vertexNames statements).length = 5 ∧
      (arrows statements).length = 4 ∧
      (arrows statements).filter (fun arrow => arrow.source == ['0']) =
        [{ source := ['0'], target := ['0', 'L'], answer := true },
          { source := ['0'], target := ['0', 'R'], answer := false }] ∧
      (arrows statements).filter (fun arrow => arrow.source == ['0', 'R']) = [] ∧
      Sees (arrows statements) ['0'] (.split (.split .leaf .leaf) .leaf)) ∧
    ¬ ∃ statements, drawing { features := [], classes := some ["S", "M"] } Sample.ranges =
      .ok statements := by
  constructor
  · obtain ⟨drawable, drawn⟩ :=
      drawing_is_tree { features := [], classes := some ["S", "M", "L"] } Sample.ranges
    obtain ⟨statements, statementsEq⟩ := drawable.mpr (Sample.coversLabels_iff.mpr (by decide))
    obtain ⟨distinct, -, -, fromLeaf, fromSplit, -, count, fewer, sees⟩ := drawn _ statementsEq
    refine ⟨statements, statementsEq, distinct, count, ?_, fromSplit [] _ _ _ _ _ rfl,
      fromLeaf [false] _ rfl, (sees _).mpr rfl⟩
    rw [count] at fewer
    exact Nat.succ.inj fewer
  · rw [(drawing_is_tree { features := [], classes := some ["S", "M"] } Sample.ranges).1,
      Sample.coversLabels_iff]
    decide

end Report

end DecisionTree
