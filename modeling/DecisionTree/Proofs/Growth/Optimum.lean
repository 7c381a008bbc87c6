import DecisionTree.Proofs.Growth.Boundaries
import DecisionTree.Proofs.Growth.Choice

/-!
# The full search finds the optimum

A gap is a pair of consecutive values that a searched feature has among the examples of a node.  In
exact arithmetic the full search chooses the best gap, judged by the histograms of the examples on
its two sides: the first one of lowest score, where earlier features come first and then lower
values (`Node.Over.search_eq`).  The node is split there exactly if that lowers its weighted
impurity by enough (`Node.split_at_optimum`).
-/

namespace DecisionTree.Growth

section Proposals

variable {α : Type} [Scalar α]

/-- A boundary that has a score, with the place of its feature among those that are searched. -/
structure Proposal (α : Type) where
  place : Nat
  feature : Int
  boundary : Boundary α
  score : α

/-- What a proposal offers. -/
def Proposal.offer (proposal : Proposal α) : Cut α × α :=
  ({ feature := proposal.feature, threshold := proposal.boundary.threshold }, proposal.score)

/-- The proposals of one feature. -/
def Node.proposalsOf (measure : Measure α) (node : Node α) (place : Nat) (feature : Int)
    (column : Column α) : List (Proposal α) :=
  (boundaries column node.counts).filterMap fun boundary =>
    (score? measure node.weightSum boundary.less boundary.greater).map fun score =>
      { place, feature, boundary, score }

/-- The proposals of some features, of which the first stands at the given place. -/
def Node.proposals (measure : Measure α) (node : Node α) (columns : List (Column α)) (place : Nat) :
    List Int → List (Proposal α)
  | [] => []
  | feature :: rest =>
      (columns[feature.toNat]?).elim [] (node.proposalsOf measure place feature) ++
        node.proposals measure columns (place + 1) rest

variable {measure : Measure α} {node : Node α} {columns : List (Column α)} {features : List Int}
variable {proposal : Proposal α} {place : Nat}

namespace Node

/-- The full search goes through the proposals in order. -/
theorem map_offer_proposals (measure : Measure α) (node : Node α) (columns : List (Column α))
    (place : Nat) (features : List Int) :
    (node.proposals measure columns place features).map Proposal.offer =
      node.offers measure columns features := by
  induction features generalizing place with
  | nil => rfl
  | cons feature rest ih =>
      rw [proposals, List.map_append, ih, offers, offers, List.flatMap_cons]
      congr 1
      cases columns[feature.toNat]? with
      | none => rfl
      | some column =>
          simp only [Option.elim_some, proposalsOf, offersOf, List.map_filterMap, Option.map_map]
          rfl

theorem mem_proposalsOf {feature : Int} {column : Column α} :
    proposal ∈ node.proposalsOf measure place feature column ↔
      proposal.place = place ∧ proposal.feature = feature ∧
        proposal.boundary ∈ boundaries column node.counts ∧
        score? measure node.weightSum proposal.boundary.less proposal.boundary.greater =
          some proposal.score := by
  simp only [proposalsOf, List.mem_filterMap, Option.map_eq_some_iff]
  constructor
  · rintro ⟨boundary, member, score, scored, rfl⟩
    exact ⟨rfl, rfl, member, scored⟩
  · rintro ⟨rfl, rfl, member, scored⟩
    exact ⟨proposal.boundary, member, proposal.score, scored, rfl⟩

theorem mem_proposals :
    proposal ∈ node.proposals measure columns place features ↔
      ∃ offset column, proposal.place = place + offset ∧
        features[offset]? = some proposal.feature ∧
        columns[proposal.feature.toNat]? = some column ∧
        proposal ∈ node.proposalsOf measure proposal.place proposal.feature column := by
  induction features generalizing place with
  | nil => simp [proposals]
  | cons feature rest ih =>
      rw [proposals, List.mem_append, ih]
      constructor
      · rintro (own | ⟨offset, column, placeEq, properties⟩)
        · cases found : columns[feature.toNat]? with
          | none =>
              rw [found] at own
              cases own
          | some column =>
              rw [found, Option.elim_some] at own
              obtain ⟨rfl, rfl, -⟩ := mem_proposalsOf.mp own
              exact ⟨0, column, rfl, rfl, found, own⟩
        · exact ⟨offset + 1, column, by omega, properties⟩
      · rintro ⟨offset, column, placeEq, listed, found, own⟩
        cases offset with
        | zero =>
            obtain rfl := Option.some.inj listed
            have first : proposal.place = place := placeEq
            rw [found, ← first]
            exact .inl own
        | succ offset => exact .inr ⟨offset, column, by omega, listed, found, own⟩

end Node

end Proposals

variable {K : Type} [Field K] [LinearOrder K]

/-- Some examples with their labels, weights and values. -/
structure Population (K : Type) where
  targets : Targets K
  /-- The value of a feature in an example. -/
  value : Nat → Int → K
  ids : List Int

/-- The columns of a node group some examples, one column for each feature, and the histogram of
the node is that of these examples. -/
structure Node.Over (population : Population K) (node : Node K) (columns : List (Column K)) :
    Prop where
  live : node.columns = some columns
  groups : ∀ (feature : Nat) (column : Column K), columns[feature]? = some column →
    column.Groups population.targets (population.value feature) population.ids
  counts_eq : node.counts = population.targets.tally population.ids

/-- Two values of a feature, with the place of the feature among those that are searched. -/
structure Gap (K : Type) where
  place : Nat
  feature : Int
  lower : K
  upper : K

namespace Gap

/-- The cut in the middle of a gap. -/
def cut (gap : Gap K) : Cut K where
  feature := gap.feature
  threshold := Scalar.midpoint gap.lower gap.upper

/-- An example has at most the lower value. -/
def isBelow (population : Population K) (gap : Gap K) (index : Int) : Bool :=
  decide (population.value gap.feature.toNat index ≤ gap.lower)

/-- An example has at least the upper value. -/
def isAbove (population : Population K) (gap : Gap K) (index : Int) : Bool :=
  decide (gap.upper ≤ population.value gap.feature.toNat index)

/-- The histogram of the examples below a gap. -/
def less (population : Population K) (gap : Gap K) : List K :=
  population.targets.tally (population.ids.filter (gap.isBelow population))

/-- The histogram of the examples above a gap. -/
def greater (population : Population K) (gap : Gap K) : List K :=
  population.targets.tally (population.ids.filter (gap.isAbove population))

/-- What both sides of a gap weigh, by the weight of the node. -/
def score (measure : Measure K) (node : Node K) (population : Population K) (gap : Gap K) : K :=
  (measure.weighted (gap.less population) + measure.weighted (gap.greater population)) /
    node.weightSum

/-- A gap that may be chosen: its values follow each other among the examples, neither side counts
as pure, and its score is below the impurity of the node. -/
structure Admissible (measure : Measure K) (node : Node K) (population : Population K)
    (features : List Int) (gap : Gap K) : Prop where
  listed : features[gap.place]? = some gap.feature
  consecutive :
    Consecutive (population.value gap.feature.toNat) population.ids gap.lower gap.upper
  less_mixed : pureBound < measure.weighted (gap.less population)
  greater_mixed : pureBound < measure.weighted (gap.greater population)
  improves : gap.score measure node population < node.impurity

/-- A gap of an earlier feature, or of the same one with a lower value. -/
def Before (first second : Gap K) : Prop :=
  first.place < second.place ∨ first.place = second.place ∧ first.lower < second.lower

/-- The first gap of lowest score among those that may be chosen. -/
structure Optimal (measure : Measure K) (node : Node K) (population : Population K)
    (features : List Int) (gap : Gap K) : Prop where
  admissible : gap.Admissible measure node population features
  lowest : ∀ other : Gap K, other.Admissible measure node population features →
    gap.score measure node population ≤ other.score measure node population
  first : ∀ other : Gap K, other.Admissible measure node population features →
    other.score measure node population = gap.score measure node population →
      other = gap ∨ gap.Before other

end Gap

/-- The gap at which a proposal is made. -/
def Proposal.gap (proposal : Proposal K) : Gap K where
  place := proposal.place
  feature := proposal.feature
  lower := proposal.boundary.lower
  upper := proposal.boundary.upper

namespace Node.Over

variable {population : Population K} {measure : Measure K} {node : Node K}
variable {columns : List (Column K)} {features : List Int} {gap : Gap K} {proposal : Proposal K}

/-- A proposal comes before all proposals that are made after it. -/
theorem pairwise_proposals (covers : node.Over population columns) (measure : Measure K)
    (place : Nat) (features : List Int) :
    (node.proposals measure columns place features).Pairwise fun first second =>
      first.gap.Before second.gap := by
  induction features generalizing place with
  | nil => exact .nil
  | cons feature rest ih =>
      rw [proposals]
      refine List.pairwise_append.mpr ⟨?_, ih (place + 1), ?_⟩
      · cases found : columns[feature.toNat]? with
        | none => exact .nil
        | some column =>
            have ascending := (covers.groups _ column found).pairwise_boundaries node.counts
            refine ascending.filterMap _ fun {lower upper} less first isFirst second isSecond => ?_
            obtain ⟨score, -, rfl⟩ := Option.map_eq_some_iff.mp isFirst
            obtain ⟨other, -, rfl⟩ := Option.map_eq_some_iff.mp isSecond
            exact .inr ⟨rfl, less⟩
      · intro first isFirst second isSecond
        obtain ⟨offset, -, placeEq, -⟩ := mem_proposals.mp isSecond
        cases found : columns[feature.toNat]? with
        | none =>
            rw [found] at isFirst
            cases isFirst
        | some column =>
            rw [found, Option.elim_some] at isFirst
            have own := (mem_proposalsOf.mp isFirst).1
            refine .inl ?_
            simp only [Proposal.gap]
            omega

variable [IsStrictOrderedRing K]

/-- A proposal is scored by the examples on the two sides of its gap. -/
theorem score_eq (covers : node.Over population columns)
    (member : proposal ∈ node.proposals measure columns 0 features) :
    proposal.score = proposal.gap.score measure node population ∧
      (proposal.score < node.impurity →
        proposal.gap.Admissible measure node population features) := by
  obtain ⟨offset, column, placeEq, listed, found, own⟩ := mem_proposals.mp member
  obtain ⟨-, -, isBoundary, scored⟩ := mem_proposalsOf.mp own
  rw [Nat.zero_add] at placeEq
  rw [← placeEq] at listed
  rw [covers.counts_eq] at isBoundary
  obtain ⟨consecutive, lessEq, greaterEq⟩ := (covers.groups _ column found).sides isBoundary
  obtain ⟨lessMixed, greaterMixed, scoreEq⟩ := score?_eq_some.mp scored
  rw [lessEq, greaterEq] at scoreEq
  rw [lessEq] at lessMixed
  rw [greaterEq] at greaterMixed
  refine ⟨scoreEq, fun lower => ?_⟩
  rw [scoreEq] at lower
  exact ⟨listed, consecutive, Exact.lt_iff.mp lessMixed, Exact.lt_iff.mp greaterMixed, lower⟩

/-- At every gap that may be chosen a proposal is made. -/
theorem exists_proposal (covers : node.Over population columns) (known : AllKnown columns features)
    (admissible : gap.Admissible measure node population features) :
    ∃ proposal ∈ node.proposals measure columns 0 features, proposal.gap = gap := by
  obtain ⟨nonneg, inside⟩ := known gap.feature (List.mem_of_getElem? admissible.listed)
  obtain ⟨column, found, -⟩ := column_eq covers.live nonneg inside
  have groups := covers.groups _ column found
  obtain ⟨boundary, isBoundary, lowerEq, upperEq⟩ :=
    groups.exists_boundary admissible.consecutive node.counts
  obtain ⟨-, lessEq, greaterEq⟩ := groups.sides (covers.counts_eq ▸ isBoundary)
  rw [lowerEq] at lessEq
  rw [upperEq] at greaterEq
  have scored : score? measure node.weightSum boundary.less boundary.greater =
      some (gap.score measure node population) := by
    rw [lessEq, greaterEq]
    exact score?_eq_some.mpr ⟨Exact.lt_iff.mpr admissible.less_mixed,
      Exact.lt_iff.mpr admissible.greater_mixed, rfl⟩
  refine ⟨⟨gap.place, gap.feature, boundary, gap.score measure node population⟩,
    mem_proposals.mpr ⟨gap.place, column, (Nat.zero_add _).symm, admissible.listed, found,
      mem_proposalsOf.mpr ⟨rfl, rfl, isBoundary, scored⟩⟩, ?_⟩
  rw [Proposal.gap, lowerEq, upperEq]

/-- The full search keeps the impurity of the node if no gap may be chosen, and chooses the optimal
one otherwise. -/
theorem search_eq (covers : node.Over population columns) (known : AllKnown columns features)
    (measure : Measure K) :
    (node.searchAll measure features = .ok (Best.none node) ∧
      ∀ gap : Gap K, ¬ gap.Admissible measure node population features) ∨
    ∃ gap : Gap K, gap.Optimal measure node population features ∧
      node.searchAll measure features =
        .ok { cut := some gap.cut, score := gap.score measure node population } := by
  rw [searchAll_eq measure covers.live known, ← map_offer_proposals measure node columns 0 features]
  have ordered := covers.pairwise_proposals measure 0 features
  have scores : ∀ proposal ∈ node.proposals measure columns 0 features,
      proposal.score = proposal.gap.score measure node population ∧
        (proposal.score < node.impurity →
          proposal.gap.Admissible measure node population features) :=
    fun proposal => covers.score_eq
  have complete : ∀ gap : Gap K, gap.Admissible measure node population features →
      ∃ proposal ∈ node.proposals measure columns 0 features, proposal.gap = gap :=
    fun gap => covers.exists_proposal known
  generalize node.proposals measure columns 0 features = proposals at *
  rcases Best.foldl_offer_eq (proposals.map Proposal.offer) (Best.none node) with
    ⟨same, notLower⟩ | ⟨chosen, firstLowest, lower, same⟩
  · refine .inl ⟨by rw [same], fun gap admissible => ?_⟩
    obtain ⟨proposal, member, rfl⟩ := complete gap admissible
    have high := notLower _ (List.mem_map_of_mem member)
    rw [Bool.eq_false_iff, ne_eq, Exact.lt_iff] at high
    have improves := admissible.improves
    rw [← (scores proposal member).1] at improves
    exact high improves
  · have lowest := firstLowest.not_lt
    obtain ⟨before, after, whole, notAsLow, -⟩ := firstLowest
    obtain ⟨earlier, rest, rfl, rfl, others⟩ := List.map_eq_append_iff.mp whole
    obtain ⟨proposal, later, rfl, rfl, rfl⟩ := List.map_eq_cons_iff.mp others
    obtain ⟨scoreEq, admissible⟩ :=
      scores proposal (List.mem_append_right _ List.mem_cons_self)
    have isAfter := (List.pairwise_cons.mp (List.pairwise_append.mp ordered).2.1).1
    refine .inr ⟨proposal.gap, ⟨admissible (Exact.lt_iff.mp lower), fun gap isGap => ?_,
      fun gap isGap same => ?_⟩, ?_⟩
    · obtain ⟨other, member, rfl⟩ := complete gap isGap
      have high := lowest _ (List.mem_map_of_mem member)
      rw [Bool.eq_false_iff, ne_eq, Exact.lt_iff, not_lt] at high
      rw [← scoreEq, ← (scores other member).1]
      exact high
    · obtain ⟨other, member, rfl⟩ := complete gap isGap
      rw [← scoreEq, ← (scores other member).1] at same
      rcases List.mem_append.mp member with early | late
      · have higher := notAsLow _ (List.mem_map_of_mem early)
        rw [Bool.eq_false_iff, ne_eq, Exact.le_iff] at higher
        exact absurd same.le higher
      · rcases List.mem_cons.mp late with rfl | late
        · exact .inl rfl
        · exact .inr (isAfter other late)
    · rw [same, ← scoreEq]
      rfl

end Node.Over

/-- Where no weight is negative, no label of an example has one. -/
theorem labelled_nonneg {targets : Targets K} (nonneg : ∀ weight ∈ targets.weights, 0 ≤ weight)
    (index : Int) : 0 ≤ (targets.labelled index).2 := by
  simp only [Targets.labelled, Array.getD_eq_getD_getElem?]
  cases found : targets.weights[index.toNat]? with
  | none => exact le_refl (0 : K)
  | some weight => exact nonneg weight (Array.mem_of_getElem? found)

/-- A node with a gap that may be chosen has weight, by which its scores are divided. -/
theorem Gap.Admissible.weightSum_pos [IsStrictOrderedRing K] {population : Population K}
    {measure : Measure K} {node : Node K} {columns : List (Column K)} {features : List Int}
    {gap : Gap K} (admissible : gap.Admissible measure node population features)
    (covers : node.Over population columns)
    (nonneg : ∀ weight ∈ population.targets.weights, 0 ≤ weight) : 0 < node.weightSum := by
  have counts := Targets.tally_nonneg (labelled_nonneg nonneg)
  have whole : node.counts = Histogram.plus (gap.less population) (gap.greater population) := by
    rw [covers.counts_eq, ← Targets.tally_perm admissible.consecutive.perm_sides,
      ← Targets.plus_tally]
    rfl
  have length : (gap.less population).length = (gap.greater population).length :=
    (Targets.length_tally _ _).trans (Targets.length_tally _ _).symm
  rw [Node.weightSum, Exact.sum_eq, whole, Histogram.sum_plus length, ← Exact.sum_eq,
    ← Exact.sum_eq]
  exact add_pos (weight_pos (counts _) admissible.less_mixed)
    (weight_pos (counts _) admissible.greater_mixed)

section Splitting

variable {α : Type} [Scalar α] {columns : List (Column α)}

namespace Node

/-- Splitting a node at a cut notes the cut. -/
theorem cut_splitAt (measure : Measure α) (node : Node α) (columns : List (Column α)) (cut : Cut α)
    (column : Column α) (workspace : Workspace) :
    (node.splitAt measure columns cut column workspace).node.cut = some cut := by
  simp only [splitAt]
  split <;> rfl

/-- What is kept depends on the choice among the examples of the node only. -/
theorem part_congr {first second : Int → Bool} (measure : Measure α) (node : Node α)
    (same : ∀ column ∈ columns, ∀ id ∈ column.indices, first id = second id) (count : Nat) :
    node.part measure columns first count = node.part measure columns second count := by
  rw [part, part]
  congr 1
  exact List.map_congr_left fun column member => Column.keep_congr (same column member)

end Node

end Splitting

/-- What carrying out a split of a node relies on: examples whose labels and weights are known, ids
in order in all entries, and a clean table of marks. -/
structure Dividable (population : Population K) (columns : List (Column K))
    (workspace : Workspace) : Prop where
  columnsOf : ColumnsOf population.targets population.value columns.length population.ids columns
  known : population.targets.Known population.targets.labels.size
  inRange : Targets.InRange population.targets.labels.size population.ids
  clean : workspace.marks.Clean

namespace Node

variable [IsStrictOrderedRing K] {population : Population K} {node : Node K}
variable {columns : List (Column K)} {column : Column K} {features : List Int} {gap : Gap K}
variable {workspace : Workspace} {σ : Type}

/-- Split at a gap, a node leaves its children the examples on the two sides of the gap. -/
theorem Over.children_splitAt (covers : node.Over population columns)
    (dividable : Dividable population columns workspace)
    (consecutive :
      Consecutive (population.value gap.feature.toNat) population.ids gap.lower gap.upper)
    (found : columns[gap.feature.toNat]? = some column) (measure : Measure K) :
    (node.splitAt measure columns gap.cut column workspace).children = .ok
      [node.part measure columns (gap.isBelow population)
          (population.ids.filter (gap.isBelow population)).length,
        node.part measure columns (gap.isAbove population)
          (node.exampleCount - (population.ids.filter (gap.isBelow population)).length)] := by
  let goes := goesLeft gap.cut.threshold (population.value gap.feature.toNat)
  have separates := Exact.separates_midpoint (Exact.lt_iff.mpr consecutive.less)
  have below : ∀ index ∈ population.ids, goes index = gap.isBelow population index :=
    fun index isId => consecutive.goesLeft_eq separates isId
  have above : ∀ index ∈ population.ids, (!goes index) = gap.isAbove population index := by
    intro index isId
    rw [below index isId, Gap.isBelow, Gap.isAbove, ← decide_not, decide_eq_decide,
      consecutive.upper_le_iff isId]
  have held : ∀ other ∈ columns, ∀ id ∈ other.indices, id ∈ population.ids := by
    intro other member id isId
    obtain ⟨feature, describes⟩ := dividable.columnsOf.exists_describes other member
    exact describes.perm.mem_iff.mp isId
  have cutFound : columns[gap.cut.feature.toNat]? = some column := found
  obtain ⟨-, -, children⟩ := splitAt_eq measure node dividable.known dividable.columnsOf
    (covers.groups _ column found).nodup dividable.inRange cutFound dividable.clean
  refine children.trans ?_
  change Except.ok [node.part measure columns goes (population.ids.filter goes).length,
    node.part measure columns (fun index => !goes index)
      (node.exampleCount - (population.ids.filter goes).length)] = _
  rw [List.filter_congr below,
    part_congr measure node fun other member id isId => below id (held other member id isId),
    part_congr measure node fun other member id isId => above id (held other member id isId)]

/-- A node that holds some examples of no negative weight is searched at all boundaries of some
features.  No cut is found exactly if there is no gap that may be chosen, and the score is then the
impurity of the node.  What is found otherwise is the middle of the optimal gap and its score.  The
node is then split there if its weight times the decrease of the impurity reaches the least
decrease, and its children hold the examples on the two sides of the gap; in all other cases it is
released without children. -/
theorem split_at_optimum (covers : node.Over population columns)
    (nonneg : ∀ weight ∈ population.targets.weights, 0 ≤ weight)
    (known : AllKnown columns features) (measure : Measure K) :
    ∃ best, node.searchAll measure features = .ok best ∧
      (best.cut = none ↔ ∀ gap : Gap K, ¬ gap.Admissible measure node population features) ∧
      (best.cut = none → best.score = node.impurity) ∧
      (∀ cut, best.cut = some cut → 0 < node.weightSum ∧
        ∃ gap : Gap K, gap.Optimal measure node population features ∧
          cut = { feature := gap.feature, threshold := (gap.lower + gap.upper) / 2 } ∧
          best.score = gap.score measure node population ∧
          ∀ (draws : Draws σ) (source : σ) (least : K) (workspace : Workspace),
            least ≤ node.weightSum * (node.impurity - best.score) →
              let outcome := (node.split .best measure draws features source least workspace).1
              outcome.node.cut = some cut ∧
                (Dividable population columns workspace → outcome.children = .ok
                  [node.part measure columns (gap.isBelow population)
                      (population.ids.filter (gap.isBelow population)).length,
                    node.part measure columns (gap.isAbove population) (node.exampleCount -
                      (population.ids.filter (gap.isBelow population)).length)])) ∧
      ∀ (draws : Draws σ) (source : σ) (least : K) (workspace : Workspace),
        best.cut = none ∨ node.weightSum * (node.impurity - best.score) < least →
          (node.split .best measure draws features source least workspace).1 =
            { node := node.release, workspace, children := .ok [] } := by
  rcases covers.search_eq known measure with ⟨found, noGap⟩ | ⟨gap, optimal, found⟩
  · refine ⟨_, found, iff_of_true rfl noGap, fun _ => rfl,
      (fun cut impossible => by cases impossible), fun draws source least workspace _ => ?_⟩
    rw [split_eq covers.live (search_best found draws source), splitBest_of_none rfl]
  · have admissible := optimal.admissible
    obtain ⟨nonnegFeature, inside⟩ := known _ (List.mem_of_getElem? admissible.listed)
    obtain ⟨column, columnFound, -⟩ := column_eq covers.live nonnegFeature inside
    refine ⟨_, found, iff_of_false (fun impossible => by cases impossible)
      (fun noGap => noGap gap admissible), (fun impossible => by cases impossible), ?_, ?_⟩
    · rintro _ ⟨⟩
      refine ⟨admissible.weightSum_pos covers nonneg, gap, optimal, rfl, rfl, ?_⟩
      intro draws source least workspace enough
      have accepted : Best.accepted node least
          { cut := some gap.cut, score := gap.score measure node population } = some gap.cut :=
        Option.filter_eq_some_iff.mpr ⟨rfl, Exact.le_iff.mpr enough⟩
      rw [split_eq covers.live (search_best found draws source),
        splitBest_of_some accepted nonnegFeature columnFound]
      exact ⟨cut_splitAt _ _ _ _ _ _, fun dividable =>
        covers.children_splitAt dividable admissible.consecutive columnFound measure⟩
    · rintro draws source least workspace (impossible | short)
      · cases impossible
      · have refused : Best.accepted node least
            { cut := some gap.cut, score := gap.score measure node population } = none := by
          refine Option.filter_eq_none_iff.mpr fun _ _ enough => ?_
          exact absurd (Exact.le_iff.mp enough) (not_le.mpr short)
        rw [split_eq covers.live (search_best found draws source), splitBest_of_none refused]

/-- Six examples with two labels.  Two features tell the first three from the others alike, and one
is constant. -/
def Sample.six : Population ℚ where
  targets := { labels := #[0, 0, 1, 0, 1, 1], weights := #[1, 1, 1, 1, 1, 1], labelCount := 2 }
  value feature index := if index < 3 then [1, 5, 3].getD feature 0 else [2, 7, 3].getD feature 0
  ids := [0, 1, 2, 3, 4, 5]

/-- A column that groups the six examples by the given values. -/
def Sample.grouping (feature : Int) (groups : List (ℚ × List Int)) : Column ℚ where
  feature := feature
  targets := Sample.six.targets
  entries := groups.map fun (value, indices) =>
    { value, indices, counts := Sample.six.targets.tally indices }
  pending := []

def Sample.sixColumns : List (Column ℚ) :=
  [Sample.grouping 0 [(1, [0, 1, 2]), (2, [3, 4, 5])],
    Sample.grouping 1 [(5, [0, 1, 2]), (7, [3, 4, 5])],
    Sample.grouping 2 [(3, [0, 1, 2, 3, 4, 5])]]

def Sample.sixNode : Node ℚ :=
  .ofCounts .gini Sample.sixColumns 6 0 (Sample.six.targets.tally Sample.six.ids)

theorem Sample.six_groups (feature : Nat) (column : Column ℚ)
    (found : Sample.sixColumns[feature]? = some column) :
    column.Groups Sample.six.targets (Sample.six.value feature)
      Sample.six.ids := by
  match feature with
  | 0 | 1 | 2 =>
      obtain rfl := Option.some.inj found
      constructor <;> decide +kernel
  | _ + 3 => cases found

theorem Sample.six_over : Sample.sixNode.Over Sample.six Sample.sixColumns where
  live := rfl
  groups := Sample.six_groups
  counts_eq := rfl

/-- The constant feature has no gap, and the second one comes before the first in the list: it is
split at 6, half way between its values, if the least decrease is at most a third. -/
theorem split_at_optimum_sample :
    Sample.sixNode.Over Sample.six Sample.sixColumns ∧
    (∀ weight ∈ Sample.six.targets.weights, 0 ≤ weight) ∧
    AllKnown Sample.sixColumns [2, 1, 0] ∧
    ∃ (best : Best ℚ) (gap : Gap ℚ), Sample.sixNode.searchAll .gini [2, 1, 0] = .ok best ∧
      gap.Optimal .gini Sample.sixNode Sample.six [2, 1, 0] ∧
      gap.cut.feature = 1 ∧ gap.cut.threshold = 6 ∧ best.score = 4 / 9 ∧
      (Sample.sixNode.split .best .gini (.repeating []) [2, 1, 0] 0 (1 / 3)
        Workspace.fresh).1.node.cut = some gap.cut ∧
      (Sample.sixNode.split .best .gini (.repeating []) [2, 1, 0] 0 (1 / 2)
        Workspace.fresh).1.children = .ok [] := by
  have nonneg : ∀ weight ∈ Sample.six.targets.weights, 0 ≤ weight := by decide +kernel
  have known : AllKnown Sample.sixColumns [2, 1, 0] := by
    unfold AllKnown
    decide +kernel
  have passed : Outcome.passes (Sample.sixNode.searchAll .gini [2, 1, 0]) (fun best =>
      best.cut.any (fun cut => cut.feature == 1 && cut.threshold == 6) && best.score == 4 / 9) =
        true := by
    decide +kernel
  obtain ⟨best, found, test⟩ := Outcome.exists_of_passes passed
  simp only [Bool.and_eq_true, Option.any_eq_true, beq_iff_eq] at test
  obtain ⟨⟨cut, cutEq, feature, threshold⟩, score⟩ := test
  obtain ⟨other, otherFound, -, -, atGap, released⟩ :=
    split_at_optimum Sample.six_over nonneg known .gini
  obtain rfl := Except.ok.inj (found.symm.trans otherFound)
  obtain ⟨-, gap, optimal, rfl, -, divided⟩ := atGap cut cutEq
  have decrease : Sample.sixNode.weightSum * (Sample.sixNode.impurity - best.score) = 1 / 3 := by
    rw [score]
    decide +kernel
  refine ⟨Sample.six_over, nonneg, known, best, gap, found, optimal, feature, threshold, score,
    (divided (.repeating []) 0 _ _ decrease.ge).1, ?_⟩
  rw [released (.repeating []) 0 (1 / 2) Workspace.fresh (.inr (by rw [decrease]; norm_num))]

end Node

end DecisionTree.Growth
