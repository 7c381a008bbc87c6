import DecisionTree.Proofs.Growth.Optimum

/-!
# The random search against the full search

The random search makes one trial for each searched feature that has at least two values
(`Node.searchRandom_eq`).  In exact arithmetic it comes to the same histograms beside a drawn
boundary as the full search, although it takes away all entries at once (`Trial.exists_boundary`).
So everything that it scores is also scored by the full search, its best score is not below that of
the full search, and where it splits a node the full search does so as well
(`Node.random_within_full`).
-/

namespace DecisionTree

namespace Histogram

variable {K : Type} [Field K] [LinearOrder K]

/-- A sum is taken away one summand after the other. -/
theorem minus_plus (total less counts : List K) :
    minus total (plus less counts) = minus (minus total less) counts := by
  induction total generalizing less counts with
  | nil => rfl
  | cons weight rest ih =>
      cases less with
      | nil => rfl
      | cons first others =>
          cases counts with
          | nil => rfl
          | cons second more =>
              have tail := ih others more
              simp only [minus, plus, List.zipWith_cons_cons, List.cons.injEq] at tail ⊢
              exact ⟨(sub_sub weight first second).symm, tail⟩

theorem minus_zero (total : List K) : minus total (zero total.length) = total := by
  induction total with
  | nil => rfl
  | cons weight rest ih =>
      rw [List.length_cons, zero, List.replicate_succ, minus, List.zipWith_cons_cons]
      exact congrArg₂ List.cons (sub_zero weight) ih

/-- Histograms that are added up can be taken away one by one. -/
theorem minus_foldl_plus (total less : List K) (entries : List (Entry K)) :
    minus total (entries.foldl (fun less entry => plus less entry.counts) less) =
      entries.foldl (fun greater entry => minus greater entry.counts) (minus total less) := by
  induction entries generalizing less with
  | nil => rfl
  | cons entry rest ih => rw [List.foldl_cons, List.foldl_cons, ih, minus_plus]

end Histogram

namespace Growth

section Trials

variable {α σ : Type} [Scalar α]

/-- A boundary of a column that a random search has drawn. -/
structure Trial (α : Type) where
  feature : Int
  column : Column α
  drawn : Int

namespace Trial

/-- The histograms that the random search comes to on the two sides. -/
def sides (node : Node α) (trial : Trial α) : List α × List α :=
  sidesAt trial.column.entries node.counts trial.drawn

/-- The score of the two sides, if there is one. -/
def score (measure : Measure α) (node : Node α) (trial : Trial α) : Option α :=
  score? measure node.weightSum (trial.sides node).1 (trial.sides node).2

end Trial

/-- The trials of a random search among some features, and the source after them. -/
def trials (draws : Draws σ) (columns : List (Column α)) : List Int → σ → List (Trial α) × σ
  | [], source => ([], source)
  | feature :: rest, source =>
      match columns[feature.toNat]? with
      | none => trials draws columns rest source
      | some column =>
          if column.entries.length < 2 then trials draws columns rest source
          else
            let (drawn, source) := draws.below (column.entries.length - 1) source
            let (others, source) := trials draws columns rest source
            ({ feature, column, drawn } :: others, source)

variable {measure : Measure α} {node : Node α} {columns : List (Column α)} {features : List Int}
variable {draws : Draws σ} {trial : Trial α}

/-- A random search scores its trials one after the other. -/
theorem Node.searchRandom_eq (measure : Measure α) (live : node.columns = some columns)
    (known : AllKnown columns features) (draws : Draws σ) (source : σ) :
    node.searchRandom measure draws features source = (do
      let best ← (trials draws columns features source).1.foldlM
        (fun best trial =>
          node.scoreDrawn measure best trial.feature trial.column.entries trial.drawn)
        (Best.none node)
      pure (best, (trials draws columns features source).2)) := by
  rw [searchRandom]
  generalize Best.none node = best
  induction features generalizing best source with
  | nil => rfl
  | cons feature rest ih =>
      have others := ih fun other member => known other (List.mem_cons_of_mem _ member)
      obtain ⟨nonneg, inside⟩ := known feature List.mem_cons_self
      obtain ⟨column, found, looked⟩ := column_eq live nonneg inside
      rw [List.foldlM_cons, looked, trials, found]
      by_cases short : column.entries.length < 2
      · simp only [short, if_true]
        rw [← others source best]
        simp only [bind, Except.bind, short, if_true]
        rfl
      · simp only [short, if_false, List.foldlM_cons, bind, Except.bind] at others ⊢
        cases node.scoreDrawn measure best feature column.entries
            (draws.below (column.entries.length - 1) source).1 with
        | error error => rfl
        | ok next => exact others _ next

omit [Scalar α] in
/-- A trial is made at a boundary of a searched column. -/
theorem mem_trials (bounded : draws.Bounded) {source : σ}
    (member : trial ∈ (trials draws columns features source).1) :
    trial.feature ∈ features ∧ columns[trial.feature.toNat]? = some trial.column ∧
      ∃ place : Nat, trial.drawn = place ∧ place + 1 < trial.column.entries.length := by
  induction features generalizing source with
  | nil => cases member
  | cons feature rest ih =>
      have later : ∀ {source : σ}, trial ∈ (trials draws columns rest source).1 →
          trial.feature ∈ feature :: rest ∧ columns[trial.feature.toNat]? = some trial.column ∧
            ∃ place : Nat, trial.drawn = place ∧ place + 1 < trial.column.entries.length :=
        fun member => (ih member).imp_left (List.mem_cons_of_mem _)
      rw [trials] at member
      split at member
      next => exact later member
      next column found =>
        split at member
        next => exact later member
        next long =>
          rcases List.mem_cons.mp member with rfl | member
          · have drawn := bounded (column.entries.length - 1) source (by omega)
            obtain ⟨place, placeEq⟩ := Int.eq_ofNat_of_zero_le drawn.1
            have isBoundary : place + 1 < column.entries.length := by omega
            exact ⟨List.mem_cons_self, found, place, placeEq, isBoundary⟩
          · exact later member

/-- What a trial offers: the cut in the middle of its boundary, if it has a score. -/
def Trial.offer? (measure : Measure α) (node : Node α) (trial : Trial α) : Option (Cut α × α) := do
  let threshold ← thresholdAt? trial.column.entries trial.drawn
  let score ← trial.score measure node
  pure ({ feature := trial.feature, threshold }, score)

/-- A trial at a boundary is scored without failure, and the better of what was found and what it
offers is kept. -/
theorem Node.scoreDrawn_eq {threshold : α}
    (found : thresholdAt? trial.column.entries trial.drawn = some threshold) (best : Best α) :
    node.scoreDrawn measure best trial.feature trial.column.entries trial.drawn =
      .ok ((trial.offer? measure node).elim best best.offer) := by
  have unfolded : node.scoreDrawn measure best trial.feature trial.column.entries trial.drawn =
      if best.improvedBy (trial.score measure node) then
        .ok (best.update trial.feature threshold (trial.score measure node))
      else .ok best := by
    simp only [scoreDrawn, found]
    rfl
  rw [unfolded, Trial.offer?, found]
  cases trial.score measure node with
  | none => rfl
  | some score =>
      change (if Scalar.lt score best.score = true then
          Except.ok (best.offer ({ feature := trial.feature, threshold }, score)) else .ok best) =
        .ok (best.offer ({ feature := trial.feature, threshold }, score))
      split
      next => rfl
      next worse => rw [Best.offer, if_neg worse]

/-- The best of what the trials offer is kept. -/
theorem Node.foldlM_scoreDrawn {attempts : List (Trial α)}
    (thresholds : ∀ trial ∈ attempts,
      ∃ threshold, thresholdAt? trial.column.entries trial.drawn = some threshold)
    (best : Best α) :
    attempts.foldlM (fun best trial =>
        node.scoreDrawn measure best trial.feature trial.column.entries trial.drawn) best =
      .ok ((attempts.filterMap (Trial.offer? measure node)).foldl Best.offer best) := by
  induction attempts generalizing best with
  | nil => rfl
  | cons trial rest ih =>
      obtain ⟨threshold, found⟩ := thresholds trial List.mem_cons_self
      have others := ih fun other member => thresholds other (List.mem_cons_of_mem _ member)
      rw [List.foldlM_cons, scoreDrawn_eq found, List.foldl_filterMap, List.foldl_cons,
        ← List.foldl_filterMap]
      exact (others _).trans (by cases trial.offer? measure node <;> rfl)

end Trials

section Offers

variable {α : Type} [Scalar α] [Scalar.Ordered α] {drawn offers : List (Cut α × α)}

/-- The best of some offers is not lower than the best of all. -/
theorem Best.foldl_offer_subset (subset : ∀ offer ∈ drawn, offer ∈ offers) (best : Best α) :
    Scalar.lt (drawn.foldl offer best).score (offers.foldl offer best).score = false := by
  obtain ⟨kept, lowest⟩ := foldl_offer offers best
  rcases (foldl_offer drawn best).1 with same | ⟨chosen, member, -, same⟩
  · rw [same]
    rcases kept with whole | ⟨first, -, lower, whole⟩
    · rw [whole]
      exact Scalar.Ordered.lt_irrefl _
    · rw [whole]
      exact Scalar.Ordered.lt_asymm lower
  · rw [same]
    exact lowest chosen (subset chosen member)

/-- If one of some offers is chosen then one of all is. -/
theorem Best.exists_of_subset (subset : ∀ offer ∈ drawn, offer ∈ offers) {best : Best α}
    {cut : Cut α} (fresh : best.cut = .none) (found : (drawn.foldl offer best).cut = some cut) :
    ∃ other, (offers.foldl offer best).cut = some other := by
  rcases (foldl_offer drawn best).1 with same | ⟨chosen, member, lower, -⟩
  · rw [same, fresh] at found
    cases found
  · obtain ⟨kept, lowest⟩ := foldl_offer offers best
    rcases kept with whole | ⟨first, -, -, whole⟩
    · have notLower := lowest chosen (subset chosen member)
      rw [whole, lower] at notLower
      cases notLower
    · exact ⟨first.1, by rw [whole]⟩

end Offers

variable {K σ : Type} [Field K] [LinearOrder K]

/-- A drawn boundary has the same histograms beside it as if it had been reached entry by entry. -/
theorem sidesAt_eq_boundary (column : Column K) (total : List K) {place : Nat}
    (inside : place + 1 < column.entries.length) :
    ∃ boundary ∈ boundaries column total,
      sidesAt column.entries total place = (boundary.less, boundary.greater) ∧
        thresholdAt? column.entries place = some boundary.threshold := by
  obtain ⟨lower, upper, lowerEq, upperEq, threshold⟩ := exists_thresholdAt? inside
  have found := boundariesFrom_getElem? 0 (Histogram.zero total.length) total column.entries place
  rw [lowerEq, upperEq] at found
  refine ⟨_, List.mem_of_getElem? found, ?_, threshold⟩
  rw [sidesAt_ofNat, lessAt, Histogram.minus_foldl_plus, Histogram.minus_zero]

/-- Everything that a random search scores is scored by the full search of the same features. -/
theorem Trial.exists_boundary {columns : List (Column K)} {features : List Int} {draws : Draws σ}
    (bounded : draws.Bounded) {source : σ} {trial : Trial K}
    (member : trial ∈ (trials draws columns features source).1) (measure : Measure K)
    (node : Node K) :
    trial.feature ∈ features ∧ columns[trial.feature.toNat]? = some trial.column ∧
      ∃ boundary ∈ boundaries trial.column node.counts,
        trial.sides node = (boundary.less, boundary.greater) ∧
        trial.score measure node =
          score? measure node.weightSum boundary.less boundary.greater ∧
        thresholdAt? trial.column.entries trial.drawn = some boundary.threshold := by
  obtain ⟨searched, found, place, drawn, inside⟩ := mem_trials bounded member
  obtain ⟨boundary, isBoundary, sides, threshold⟩ :=
    sidesAt_eq_boundary trial.column node.counts inside
  rw [← drawn] at sides threshold
  refine ⟨searched, found, boundary, isBoundary, sides, ?_, threshold⟩
  rw [Trial.score, Trial.sides, sides]

namespace Node

variable {population : Population K} {measure : Measure K} {node : Node K}
variable {columns : List (Column K)} {features : List Int} {draws : Draws σ} {source : σ}
variable {workspace : Workspace} {least : K} {best : Best K}

/-- The random search keeps the best of some offers that the full search has, too. -/
theorem exists_drawn (measure : Measure K) (live : node.columns = some columns)
    (known : AllKnown columns features) (bounded : draws.Bounded) (source : σ) :
    ∃ drawn : List (Cut K × K),
      (∀ offer ∈ drawn, offer ∈ node.offers measure columns features) ∧
        node.searchRandom measure draws features source = .ok
          (drawn.foldl Best.offer (Best.none node), (trials draws columns features source).2) := by
  refine ⟨(trials draws columns features source).1.filterMap (Trial.offer? measure node),
    fun offer member => ?_, ?_⟩
  · obtain ⟨trial, isTrial, offered⟩ := List.mem_filterMap.mp member
    obtain ⟨searched, found, boundary, isBoundary, -, scoreEq, threshold⟩ :=
      Trial.exists_boundary bounded isTrial measure node
    rw [Trial.offer?, threshold, Option.bind_eq_bind, Option.bind_some, scoreEq] at offered
    obtain ⟨score, scored, same⟩ := Option.bind_eq_some_iff.mp offered
    obtain rfl := Option.some.inj same
    exact mem_offers_iff.mpr
      ⟨trial.feature, searched, trial.column, boundary, found, isBoundary, scored, rfl⟩
  · rw [searchRandom_eq measure live known, foldlM_scoreDrawn fun trial isTrial => ?_]
    · rfl
    · obtain ⟨-, -, boundary, -, -, -, threshold⟩ :=
        Trial.exists_boundary bounded isTrial measure node
      exact ⟨_, threshold⟩

/-- Without negative weights a node has none. -/
theorem Over.weightSum_nonneg [IsStrictOrderedRing K] (covers : node.Over population columns)
    (nonneg : ∀ weight ∈ population.targets.weights, 0 ≤ weight) : 0 ≤ node.weightSum := by
  rw [weightSum, covers.counts_eq, Exact.sum_eq]
  exact List.sum_nonneg (Targets.tally_nonneg (labelled_nonneg nonneg) _)

/-- A node is released without children exactly if what was found is not accepted. -/
theorem children_split (live : node.columns = some columns) (known : AllKnown columns features)
    (bounded : draws.Bounded) {splitter : Splitter} {after : σ}
    (found : node.search splitter measure draws features source = .ok (best, after)) :
    (node.split splitter measure draws features source least workspace).1.children = .ok [] ↔
      best.accepted node least = none := by
  obtain ⟨_, again, justified⟩ := search_justified measure bounded live known splitter source
  obtain rfl := Except.ok.inj (found.symm.trans again)
  rw [split_eq live found]
  constructor
  · intro childless
    cases accepted : best.accepted node least with
    | none => rfl
    | some cut =>
        obtain ⟨column, place, lower, upper, division, -⟩ := justified.division accepted
        rw [splitBest_of_some accepted division.between.nonneg division.between.column_eq,
          splitAt] at childless
        simp only at childless
        split at childless
        next => cases childless
        next => cases childless
  · intro refused
    rw [splitBest_of_none refused]

/-- An offer is made at a feature of which the examples have two different values. -/
theorem Over.exists_values [IsStrictOrderedRing K] (covers : node.Over population columns)
    {offer : Cut K × K} (member : offer ∈ node.offers measure columns features) :
    offer.1.feature ∈ features ∧ ∃ first ∈ population.ids, ∃ second ∈ population.ids,
      population.value offer.1.feature.toNat first ≠
        population.value offer.1.feature.toNat second := by
  obtain ⟨feature, searched, column, boundary, found, isBoundary, -, cutEq⟩ :=
    mem_offers_iff.mp member
  rw [covers.counts_eq] at isBoundary
  obtain ⟨consecutive, -, -⟩ := (covers.groups _ column found).sides isBoundary
  obtain ⟨first, isFirst, firstEq⟩ := consecutive.lower_mem
  obtain ⟨second, isSecond, secondEq⟩ := consecutive.upper_mem
  rw [cutEq]
  refine ⟨searched, first, isFirst, second, isSecond, ?_⟩
  rw [firstEq, secondEq]
  exact consecutive.less.ne

/-- A node that holds some examples of no negative weight is searched among some features, once at
random and once at all boundaries.  Whatever is drawn, the random search does nothing but score its
trials one after the other, each of which is at a boundary that the full search scores, with the
same histograms on both sides and the same score.  It only chooses features of which the node has
two different values, its best score is not below that of the full search, and whatever decrease is
asked for, if it splits the node then the full search does so, too. -/
theorem random_within_full [IsStrictOrderedRing K] (covers : node.Over population columns)
    (nonneg : ∀ weight ∈ population.targets.weights, 0 ≤ weight)
    (known : AllKnown columns features) (bounded : draws.Bounded) (measure : Measure K)
    (source : σ) :
    (node.searchRandom measure draws features source = do
      let best ← (trials draws columns features source).1.foldlM
        (fun best trial =>
          node.scoreDrawn measure best trial.feature trial.column.entries trial.drawn)
        (Best.none node)
      pure (best, (trials draws columns features source).2)) ∧
    (∀ trial ∈ (trials draws columns features source).1,
      trial.feature ∈ features ∧ columns[trial.feature.toNat]? = some trial.column ∧
        ∃ boundary ∈ boundaries trial.column node.counts,
          trial.sides node = (boundary.less, boundary.greater) ∧
          trial.score measure node =
            score? measure node.weightSum boundary.less boundary.greater ∧
          thresholdAt? trial.column.entries trial.drawn = some boundary.threshold) ∧
    ∃ random full after, node.searchRandom measure draws features source = .ok (random, after) ∧
      node.searchAll measure features = .ok full ∧
      (∀ cut, random.cut = some cut → cut.feature ∈ features ∧
        ∃ first ∈ population.ids, ∃ second ∈ population.ids,
          population.value cut.feature.toNat first ≠ population.value cut.feature.toNat second) ∧
      full.score ≤ random.score ∧
      ∀ (least : K) (workspace other : Workspace),
        (node.split .random measure draws features source least workspace).1.children ≠ .ok [] →
          (node.split .best measure draws features source least other).1.children ≠ .ok [] := by
  refine ⟨searchRandom_eq measure covers.live known draws source,
    fun trial member => Trial.exists_boundary bounded member measure node, ?_⟩
  obtain ⟨drawn, subset, searched⟩ := exists_drawn measure covers.live known bounded source
  have searchedAll := searchAll_eq measure covers.live known
  have notBelow : (((node.offers measure columns features).foldl Best.offer
      (Best.none node)).score ≤ (drawn.foldl Best.offer (Best.none node)).score) := by
    have lowest := Best.foldl_offer_subset subset (Best.none node)
    rwa [Bool.eq_false_iff, ne_eq, Exact.lt_iff, not_lt] at lowest
  refine ⟨_, _, _, searched, searchedAll, fun cut found => ?_, notBelow,
    fun least workspace other split => ?_⟩
  · rcases (Best.foldl_offer drawn (Best.none node)).1 with same | ⟨chosen, member, -, same⟩
    · rw [same] at found
      cases found
    · rw [same] at found
      obtain rfl := Option.some.inj found
      exact covers.exists_values (subset chosen member)
  · have drawnSearch : node.search .random measure draws features source = .ok
        (drawn.foldl Best.offer (Best.none node), (trials draws columns features source).2) :=
      searched
    rw [ne_eq, children_split covers.live known bounded drawnSearch] at split
    rw [ne_eq, children_split covers.live known bounded (search_best searchedAll draws source)]
    obtain ⟨cut, accepted⟩ := Option.ne_none_iff_exists'.mp split
    obtain ⟨cutEq, enough⟩ := Option.filter_eq_some_iff.mp accepted
    obtain ⟨best, bestEq⟩ := Best.exists_of_subset subset rfl cutEq
    refine Option.ne_none_iff_exists'.mpr ⟨best, Option.filter_eq_some_iff.mpr ⟨bestEq, ?_⟩⟩
    refine Exact.le_iff.mpr ((Exact.le_iff.mp enough).trans ?_)
    exact mul_le_mul_of_nonneg_left (sub_le_sub_left notBelow _) (covers.weightSum_nonneg nonneg)

/-- Zeros are drawn.  The constant feature is passed over, and both other trials come to the same
two sides; the full search splits the node as the random search does. -/
theorem random_within_full_sample :
    let made := (trials (.repeating []) Sample.sixColumns [2, 1, 0] 0).1
    Sample.sixNode.Over Sample.six Sample.sixColumns ∧
    (∀ weight ∈ Sample.six.targets.weights, 0 ≤ weight) ∧
    AllKnown Sample.sixColumns [2, 1, 0] ∧ (Draws.repeating []).Bounded ∧
    made.map Trial.feature = [1, 0] ∧
    made.map (Trial.sides Sample.sixNode) = [([2, 1], [1, 2]), ([2, 1], [1, 2])] ∧
    (∀ trial ∈ made, ∃ boundary ∈ boundaries trial.column Sample.sixNode.counts,
      (boundary.less, boundary.greater) = ([2, 1], [1, 2])) ∧
    ∃ (random full : Best ℚ) (after : Nat),
      Sample.sixNode.searchRandom .gini (.repeating []) [2, 1, 0] 0 = .ok (random, after) ∧
      Sample.sixNode.searchAll .gini [2, 1, 0] = .ok full ∧ full.score ≤ random.score ∧
      (Sample.sixNode.split .random .gini (.repeating []) [2, 1, 0] 0 (1 / 3)
        Workspace.fresh).1.children ≠ .ok [] ∧
      (Sample.sixNode.split .best .gini (.repeating []) [2, 1, 0] 0 (1 / 3)
        Workspace.fresh).1.children ≠ .ok [] := by
  intro made
  have nonneg : ∀ weight ∈ Sample.six.targets.weights, 0 ≤ weight := by decide +kernel
  have known : AllKnown Sample.sixColumns [2, 1, 0] := by
    unfold AllKnown
    decide +kernel
  have sides : made.map (Trial.sides Sample.sixNode) = [([2, 1], [1, 2]), ([2, 1], [1, 2])] := by
    decide +kernel
  have passed : Outcome.passes (Sample.sixNode.split .random .gini (.repeating []) [2, 1, 0] 0
      (1 / 3) Workspace.fresh).1.children (fun children => children.length == 2) = true := by
    decide +kernel
  have isSplit : (Sample.sixNode.split .random .gini (.repeating []) [2, 1, 0] 0 (1 / 3)
      Workspace.fresh).1.children ≠ .ok [] := by
    intro childless
    rw [childless] at passed
    cases passed
  obtain ⟨-, atBoundaries, random, full, after, searched, searchedAll, -, notBelow, splits⟩ :=
    random_within_full Sample.six_over nonneg known Draws.bounded_zeros .gini 0
  refine ⟨Sample.six_over, nonneg, known, Draws.bounded_zeros, by decide +kernel, sides,
    fun trial member => ?_, random, full, after, searched, searchedAll, notBelow, isSplit,
    splits _ _ _ isSplit⟩
  obtain ⟨-, -, boundary, isBoundary, sidesEq, -⟩ := atBoundaries trial member
  refine ⟨boundary, isBoundary, sidesEq.symm.trans ?_⟩
  have listed := List.mem_map_of_mem (f := Trial.sides Sample.sixNode) member
  rw [sides] at listed
  simpa using listed

end Node

end Growth

end DecisionTree
