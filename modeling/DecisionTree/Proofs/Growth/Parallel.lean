import DecisionTree.Proofs.Growth.Level

/-!
# Two searches in parallel

A search compares scores, and scores come from histograms; values only enter the threshold of the
cut that is chosen in the end.  So if the columns of two nodes have the same histograms, entry by
entry, then their searches draw the same numbers, keep the same scores and choose cuts between the
entries at the same place of the same column (`Node.search_parallel`), and both nodes are divided
there or neither is (`Carried.parallel`).
-/

namespace DecisionTree

variable {α σ : Type} [Scalar α]

omit [Scalar α] in
/-- Two columns have the same histograms, entry by entry. -/
def Column.Parallel (column other : Column α) : Prop :=
  other.entries.map Entry.counts = column.entries.map Entry.counts

omit [Scalar α] in
theorem Column.Parallel.length_eq {column other : Column α} (parallel : column.Parallel other) :
    other.entries.length = column.entries.length := by
  have lengths := congrArg List.length parallel
  rwa [List.length_map, List.length_map] at lengths

open Growth (sidesAt lessAt sidesAt_ofNat) in
/-- The same number names places with the same histograms. -/
theorem Column.Parallel.sidesAt_eq {column other : Column α} (parallel : column.Parallel other)
    (total : List α) (place : Nat) :
    sidesAt other.entries total place = sidesAt column.entries total place := by
  have less : lessAt other total place = lessAt column total place := by
    have folded : ∀ entries : List (Entry α),
        entries.foldl (fun less entry => Histogram.plus less entry.counts)
          (Histogram.zero total.length) =
          (entries.map Entry.counts).foldl Histogram.plus (Histogram.zero total.length) :=
      fun entries => List.foldl_map.symm
    rw [lessAt, lessAt, folded, folded, List.map_take, List.map_take, parallel]
  rw [sidesAt_ofNat, sidesAt_ofNat, less]

namespace Growth

/-- A boundary after the entry at a place, between the value there and the next one. -/
def Boundary.LiesAt (entries : List (Entry α)) (place : Nat) (boundary : Boundary α) : Prop :=
  ∃ lower upper, entries[place]? = some lower ∧ entries[place + 1]? = some upper ∧
    boundary.lower = lower.value ∧ boundary.upper = upper.value

/-- Two boundaries after the entries at the same place, with the same histograms beside them. -/
structure Boundary.Parallel (entries others : List (Entry α)) (boundary twin : Boundary α) :
    Prop where
  less_eq : twin.less = boundary.less
  greater_eq : twin.greater = boundary.greater
  place_eq : ∃ place, boundary.LiesAt entries place ∧ twin.LiesAt others place

/-- Two cuts of the same feature, between the entries at the same place. -/
structure Cut.Parallel (columns others : List (Column α)) (cut twin : Cut α) : Prop where
  feature_eq : twin.feature = cut.feature
  place_eq : ∃ place, (∃ column lower upper, cut.Between columns column place lower upper) ∧
    ∃ column lower upper, twin.Between others column place lower upper

/-- Two searches have come to the same score, at cuts that are parallel. -/
structure Best.Parallel (columns others : List (Column α)) (best twin : Best α) : Prop where
  score_eq : twin.score = best.score
  cuts : Option.Rel (Cut.Parallel columns others) best.cut twin.cut

/-- Two nodes were searched with the same effect: neither is divided, or both are, at cuts that are
parallel. -/
inductive Outcome.Parallel (columns others : List (Column α)) (outcome twin : Outcome α) : Prop
  | settled (children_eq : outcome.children = .ok []) (twin_eq : twin.children = .ok [])
  | divided (cut other : Cut α) (parallel : cut.Parallel columns others other)
      (cut_eq : outcome.node.cut = some cut) (other_eq : twin.node.cut = some other)
      (left right below above : Node α) (children_eq : outcome.children = .ok [left, right])
      (twin_eq : twin.children = .ok [below, above])

variable {column other : Column α} {columns others : List (Column α)} {measure : Measure α}
variable {node twin : Node α}

omit [Scalar α] in
theorem Boundary.LiesAt.cons {entries : List (Entry α)} {place : Nat} {boundary : Boundary α}
    (lies : boundary.LiesAt entries place) (first : Entry α) :
    boundary.LiesAt (first :: entries) (place + 1) :=
  lies

/-- The boundaries among entries with the same histograms are parallel. -/
theorem boundariesFrom_parallel {entries twins : List (Entry α)}
    (same : twins.map Entry.counts = entries.map Entry.counts) (index : Nat)
    (less greater : List α) :
    List.Forall₂ (Boundary.Parallel entries twins) (boundariesFrom index less greater entries)
      (boundariesFrom index less greater twins) := by
  induction entries generalizing twins index less greater with
  | nil =>
      obtain rfl := List.map_eq_nil_iff.mp same
      exact .nil
  | cons entry rest ih =>
      obtain ⟨first, later, rfl, firstEq, laterEq⟩ := List.map_eq_cons_iff.mp same
      cases rest with
      | nil =>
          obtain rfl := List.map_eq_nil_iff.mp laterEq
          exact .nil
      | cons next rest =>
          obtain ⟨second, last, rfl, -⟩ := List.map_eq_cons_iff.mp laterEq
          rw [boundariesFrom, boundariesFrom, firstEq]
          refine .cons ⟨rfl, rfl, 0, ⟨entry, next, rfl, rfl, rfl, rfl⟩, first, second, rfl, rfl,
            rfl, rfl⟩ ((ih laterEq _ _ _).imp fun boundary twin parallel => ?_)
          obtain ⟨place, lies, twinLies⟩ := parallel.place_eq
          exact { parallel with place_eq := ⟨place + 1, lies.cons entry, twinLies.cons first⟩ }

namespace Best

theorem Parallel.none (impurity : twin.impurity = node.impurity) :
    (Best.none node).Parallel columns others (Best.none twin) :=
  ⟨impurity, .none⟩

theorem Parallel.improvedBy_eq {best same : Best α} (parallel : best.Parallel columns others same)
    (score : Option α) : same.improvedBy score = best.improvedBy score := by
  cases score with
  | none => rfl
  | some value => rw [improvedBy, improvedBy, parallel.score_eq]

/-- Updating with cuts that are parallel and have the same score keeps two searches parallel. -/
theorem Parallel.update {best same : Best α} (parallel : best.Parallel columns others same)
    {feature : Int} {threshold otherThreshold : α} (score : Option α)
    (cuts : Cut.Parallel columns others { feature, threshold }
      { feature, threshold := otherThreshold }) :
    (best.update feature threshold score).Parallel columns others
      (same.update feature otherThreshold score) := by
  cases score with
  | none => exact parallel
  | some value =>
      simp only [Best.update, parallel.improvedBy_eq]
      by_cases improved : best.improvedBy (some value) = true
      · rw [if_pos improved, if_pos improved]
        exact ⟨rfl, .some cuts⟩
      · rw [if_neg improved, if_neg improved]
        exact parallel

/-- Cuts of the same score are accepted alike. -/
theorem Parallel.accepted {best same : Best α} (parallel : best.Parallel columns others same)
    (counts : twin.counts = node.counts) (impurity : twin.impurity = node.impurity) (least : α) :
    Option.Rel (Cut.Parallel columns others) (best.accepted node least)
      (same.accepted twin least) := by
  obtain ⟨score, cuts⟩ := parallel
  rw [Best.accepted, Best.accepted, Node.decrease, Node.decrease, Node.weightSum, Node.weightSum,
    counts, impurity, score]
  generalize best.cut = cut, same.cut = twinCut at cuts
  cases cuts with
  | none => exact .none
  | some cuts =>
      rw [Option.filter_some, Option.filter_some]
      split
      · exact .some cuts
      · exact .none

end Best

namespace Node

section Searches

variable (counts : twin.counts = node.counts) (impurity : twin.impurity = node.impurity)
variable (live : node.columns = some columns) (twinLive : twin.columns = some others)
variable (parallel : List.Forall₂ Column.Parallel columns others)

include live twinLive parallel in
omit [Scalar α] in
/-- A feature names columns with the same histograms. -/
theorem column_parallel {feature : Int} (nonneg : 0 ≤ feature) (inside : feature < columns.length) :
    ∃ column other, columns[feature.toNat]? = some column ∧ others[feature.toNat]? = some other ∧
      node.column feature = .ok column ∧ twin.column feature = .ok other ∧
      column.Parallel other := by
  obtain ⟨column, found, looked⟩ := column_eq live nonneg inside
  obtain ⟨other, otherFound, otherLooked⟩ :=
    column_eq twinLive nonneg (by rwa [← parallel.length_eq])
  obtain ⟨isPlace, rfl⟩ := List.getElem?_eq_some_iff.mp found
  obtain ⟨otherPlace, rfl⟩ := List.getElem?_eq_some_iff.mp otherFound
  exact ⟨_, _, found, otherFound, looked, otherLooked, parallel.get isPlace otherPlace⟩

include counts in
theorem searchColumn_parallel {best same : Best α} (bests : best.Parallel columns others same)
    {feature : Int} (nonneg : 0 ≤ feature) (found : columns[feature.toNat]? = some column)
    (otherFound : others[feature.toNat]? = some other) (histograms : column.Parallel other) :
    (node.searchColumn measure best feature column).Parallel columns others
      (twin.searchColumn measure same feature other) := by
  rw [searchColumn, searchColumn, boundaries, boundaries, weightSum, weightSum, counts]
  refine List.rel_foldl ?_ bests (boundariesFrom_parallel histograms _ _ _)
  intro best same bests boundary other sides
  simp only [sides.less_eq, sides.greater_eq]
  obtain ⟨place, ⟨lower, upper, lowerEq, upperEq, lowerValue, upperValue⟩,
    below, above, belowEq, aboveEq, belowValue, aboveValue⟩ := sides.place_eq
  refine bests.update _ ⟨rfl, place,
    ⟨_, lower, upper, nonneg, found, lowerEq, upperEq, ?_⟩,
    ⟨_, below, above, nonneg, otherFound, belowEq, aboveEq, ?_⟩⟩
  · simp only [Boundary.threshold, lowerValue, upperValue]
  · simp only [Boundary.threshold, belowValue, aboveValue]

include counts in
theorem scoreDrawn_parallel {best same : Best α} (bests : best.Parallel columns others same)
    {feature : Int} (nonneg : 0 ≤ feature) (found : columns[feature.toNat]? = some column)
    (otherFound : others[feature.toNat]? = some other) (histograms : column.Parallel other)
    {place : Nat} (inside : place + 1 < column.entries.length) :
    ∃ next following, node.scoreDrawn measure best feature column.entries place = .ok next ∧
      twin.scoreDrawn measure same feature other.entries place = .ok following ∧
      next.Parallel columns others following := by
  have otherInside : place + 1 < other.entries.length := by rwa [histograms.length_eq]
  obtain ⟨lower, upper, lowerEq, upperEq, threshold⟩ := exists_thresholdAt? inside
  obtain ⟨below, above, belowEq, aboveEq, otherThreshold⟩ := exists_thresholdAt? otherInside
  simp only [scoreDrawn, histograms.sidesAt_eq, counts, weightSum, threshold, otherThreshold,
    bests.improvedBy_eq]
  split
  · exact ⟨_, _, rfl, rfl, bests.update _ ⟨rfl, place,
      ⟨_, lower, upper, nonneg, found, lowerEq, upperEq, rfl⟩,
      ⟨_, below, above, nonneg, otherFound, belowEq, aboveEq, rfl⟩⟩⟩
  · exact ⟨_, _, rfl, rfl, bests⟩

variable {draws : Draws σ} (bounded : draws.Bounded) {features : List Int}
variable (known : AllKnown columns features)

include counts impurity live twinLive parallel known

theorem searchAll_parallel :
    ∃ best same, node.searchAll measure features = .ok best ∧
      twin.searchAll measure features = .ok same ∧ best.Parallel columns others same := by
  refine Outcome.exists_foldlM_pair (Best.Parallel.none impurity) ?_
  intro best same feature member bests
  obtain ⟨nonneg, inside⟩ := known feature member
  obtain ⟨column, other, found, otherFound, looked, otherLooked, histograms⟩ :=
    column_parallel live twinLive parallel nonneg inside
  exact ⟨_, _, Outcome.bind_eq_ok.mpr ⟨column, looked, rfl⟩,
    Outcome.bind_eq_ok.mpr ⟨other, otherLooked, rfl⟩,
    searchColumn_parallel counts bests nonneg found otherFound histograms⟩

include bounded in
theorem searchRandom_parallel (source : σ) :
    ∃ best same next, node.searchRandom measure draws features source = .ok (best, next) ∧
      twin.searchRandom measure draws features source = .ok (same, next) ∧
      best.Parallel columns others same := by
  suffices ∃ found other : Best α × σ,
      node.searchRandom measure draws features source = .ok found ∧
      twin.searchRandom measure draws features source = .ok other ∧
      other.2 = found.2 ∧ found.1.Parallel columns others other.1 by
    obtain ⟨⟨best, next⟩, ⟨same, _⟩, found, otherFound, rfl, bests⟩ := this
    exact ⟨best, same, _, found, otherFound, bests⟩
  refine Outcome.exists_foldlM_pair ⟨rfl, .none impurity⟩ ?_
  rintro ⟨best, source⟩ ⟨same, next⟩ feature member ⟨sourceEq, bests⟩
  obtain rfl : next = source := sourceEq
  have bests : best.Parallel columns others same := bests
  obtain ⟨nonneg, inside⟩ := known feature member
  obtain ⟨column, other, found, otherFound, looked, otherLooked, histograms⟩ :=
    column_parallel live twinLive parallel nonneg inside
  simp only [looked, otherLooked, bind, Except.bind, histograms.length_eq]
  split
  next short => exact ⟨_, _, rfl, rfl, rfl, bests⟩
  next long =>
    have drawn := bounded (column.entries.length - 1) next (by omega)
    obtain ⟨place, placeEq⟩ := Int.eq_ofNat_of_zero_le drawn.1
    have isBoundary : place + 1 < column.entries.length := by omega
    obtain ⟨better, following, scored, otherScored, nextBests⟩ :=
      scoreDrawn_parallel counts bests nonneg found otherFound histograms isBoundary
    rw [placeEq, scored, otherScored]
    exact ⟨_, _, rfl, rfl, rfl, nextBests⟩

include bounded in
/-- Searches of columns with the same histograms run in parallel. -/
theorem search_parallel (splitter : Splitter) (source : σ) :
    ∃ best same next, node.search splitter measure draws features source = .ok (best, next) ∧
      twin.search splitter measure draws features source = .ok (same, next) ∧
      best.Parallel columns others same := by
  cases splitter with
  | best =>
      obtain ⟨best, same, found, otherFound, bests⟩ :=
        searchAll_parallel counts impurity live twinLive parallel known
      refine ⟨best, same, source, ?_, ?_, bests⟩
      · rw [search, found]
        rfl
      · rw [search, otherFound]
        rfl
  | random =>
      exact searchRandom_parallel counts impurity live twinLive parallel bounded known source

end Searches

end Node

section Carrying

variable [Scalar.Ordered α] {policy : Policy α} {draws : Draws σ} {ground : Ground α}
variable {task : Task α σ} {outcome : Outcome α} {origin : Origin α} {best : Best α} {next : σ}

/-- Two tasks that ask for the same, of nodes whose columns have the same histograms, are carried
out with the same effect. -/
theorem Carried.parallel (bounded : draws.Bounded) {other : Ground α} {twin : Task α σ}
    {same : Outcome α} {entry : Origin α}
    (carried : Carried policy draws ground.least task outcome)
    (twinCarried : Carried policy draws other.least twin same) (least : other.least = ground.least)
    (known : ground.targets.Known ground.count) (twinKnown : other.targets.Known other.count)
    (originSound : origin.Sound ground) (entrySound : entry.Sound other)
    (live : task.node.columns = some origin.columns)
    (twinLive : twin.node.columns = some entry.columns)
    (counts : twin.node.counts = task.node.counts)
    (impurity : twin.node.impurity = task.node.impurity)
    (features : twin.features = task.features) (source : twin.source = task.source)
    (featuresKnown : Node.AllKnown origin.columns task.features)
    (columns : List.Forall₂ Column.Parallel origin.columns entry.columns) :
    outcome.Parallel origin.columns entry.columns same := by
  obtain ⟨best, twinBest, next, searched, twinSearched, bests⟩ :=
    Node.search_parallel counts impurity live twinLive columns bounded featuresKnown
      policy.splitter task.source
  rw [← features, ← source] at twinSearched
  have accepted := bests.accepted counts impurity ground.least
  rw [← least] at accepted
  generalize cutEq : best.accepted task.node other.least = cut,
    twinEq : twinBest.accepted twin.node other.least = twinCut at accepted
  cases accepted with
  | none =>
      rw [least] at cutEq
      exact .settled (carried.of_refused live searched cutEq)
        (twinCarried.of_refused twinLive twinSearched twinEq)
  | @some cut twinCut cuts =>
      rw [least] at cutEq
      obtain ⟨place, ⟨column, lower, upper, between⟩, twinColumn, below, above, twinBetween⟩ :=
        cuts.place_eq
      obtain ⟨nodeEq, childrenEq⟩ :=
        carried.of_accepted known originSound live searched cutEq between
      obtain ⟨twinNodeEq, twinChildrenEq⟩ :=
        twinCarried.of_accepted twinKnown entrySound twinLive twinSearched twinEq twinBetween
      exact .divided cut twinCut cuts (by rw [nodeEq]) (by rw [twinNodeEq]) _ _ _ _ childrenEq
        twinChildrenEq

end Carrying

end Growth

end DecisionTree
