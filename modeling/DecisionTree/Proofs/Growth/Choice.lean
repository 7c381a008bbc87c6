import DecisionTree.Proofs.Growth.Repetition

/-!
# What the full search chooses

The full search goes through the scored boundaries of all columns and keeps the best of them
(`Node.searchAll_eq`).  Nothing that it passes over is lower than what it keeps
(`Best.foldl_offer`).  So it comes to a cut that is accepted exactly if some boundary may be chosen
and the lowest of their scores lowers the impurity enough (`Node.finds_iff`).
-/

namespace DecisionTree.Growth

variable {α : Type} [Scalar α]

/-- What the two sides of a boundary weigh, by the weight of the node. -/
def Boundary.score (measure : Measure α) (weight : α) (boundary : Boundary α) : α :=
  (measure.weighted boundary.less + measure.weighted boundary.greater) / weight

/-- A boundary that a search may choose: neither side counts as pure, and its score is below the
impurity of the node. -/
structure Candidate (measure : Measure α) (node : Node α) (columns : List (Column α))
    (feature : Nat) (boundary : Boundary α) : Prop where
  offered : ∃ column, columns[feature]? = some column ∧
    boundary ∈ boundaries column node.counts
  less_mixed : Scalar.lt pureBound (measure.weighted boundary.less) = true
  greater_mixed : Scalar.lt pureBound (measure.weighted boundary.greater) = true
  improves : Scalar.lt (boundary.score measure node.weightSum) node.impurity = true

/-- Keeps the better of what was found and a scored cut; the former on a tie. -/
def Best.offer (best : Best α) (offer : Cut α × α) : Best α :=
  if Scalar.lt offer.2 best.score then { cut := some offer.1, score := offer.2 } else best

/-- The boundaries of a column that have a score, as cuts. -/
def Node.offersOf (measure : Measure α) (node : Node α) (feature : Int) (column : Column α) :
    List (Cut α × α) :=
  (boundaries column node.counts).filterMap fun boundary =>
    (score? measure node.weightSum boundary.less boundary.greater).map fun score =>
      ({ feature, threshold := boundary.threshold }, score)

/-- The boundaries of some features that have a score, in the order in which they are searched. -/
def Node.offers (measure : Measure α) (node : Node α) (columns : List (Column α))
    (features : List Int) : List (Cut α × α) :=
  features.flatMap fun feature =>
    (columns[feature.toNat]?).elim [] (node.offersOf measure feature)

variable {measure : Measure α} {node : Node α} {columns : List (Column α)} {column : Column α}
variable {best : Best α} {feature : Int} {features : List Int}

namespace Node

theorem searchColumn_eq (measure : Measure α) (node : Node α) (best : Best α) (feature : Int)
    (column : Column α) :
    node.searchColumn measure best feature column =
      (node.offersOf measure feature column).foldl Best.offer best := by
  rw [searchColumn, offersOf, List.foldl_filterMap]
  congr 1
  funext best boundary
  cases score? measure node.weightSum boundary.less boundary.greater with
  | none => rfl
  | some score => rfl

/-- The full search keeps the best of all boundaries that have a score. -/
theorem searchAll_eq (measure : Measure α) (live : node.columns = some columns)
    (known : AllKnown columns features) :
    node.searchAll measure features =
      .ok ((node.offers measure columns features).foldl Best.offer (Best.none node)) := by
  rw [searchAll]
  generalize Best.none node = best
  induction features generalizing best with
  | nil => rfl
  | cons feature rest ih =>
      obtain ⟨nonneg, inside⟩ := known feature List.mem_cons_self
      obtain ⟨column, found, looked⟩ := column_eq live nonneg inside
      rw [List.foldlM_cons, offers, List.flatMap_cons, List.foldl_append, looked, found]
      exact (ih (fun other member => known other (List.mem_cons_of_mem _ member)) _).trans
        (by rw [searchColumn_eq]; rfl)

/-- What is offered are the boundaries of the searched columns that have a score. -/
theorem mem_offers_iff {cut : Cut α} {score : α} :
    (cut, score) ∈ node.offers measure columns features ↔
      ∃ feature ∈ features, ∃ (column : Column α) (boundary : Boundary α),
        columns[feature.toNat]? = some column ∧ boundary ∈ boundaries column node.counts ∧
          score? measure node.weightSum boundary.less boundary.greater = some score ∧
            cut = { feature, threshold := boundary.threshold } := by
  simp only [offers, List.mem_flatMap]
  refine exists_congr fun feature => and_congr_right fun _ => ?_
  cases columns[feature.toNat]? with
  | none => simp
  | some column =>
      simp only [Option.elim_some, offersOf, List.mem_filterMap, Option.map_eq_some_iff,
        Prod.mk.injEq, Option.some.injEq]
      constructor
      · rintro ⟨boundary, member, other, scored, rfl, rfl⟩
        exact ⟨column, boundary, rfl, member, scored, rfl⟩
      · rintro ⟨_, boundary, rfl, member, scored, rfl⟩
        exact ⟨boundary, member, score, scored, rfl, rfl⟩

/-- If all features are searched, these are the boundaries of all columns. -/
theorem mem_offers {cut : Cut α} {score : α} :
    (cut, score) ∈ node.offers measure columns (allFeatures columns.length) ↔
      ∃ (feature : Nat) (column : Column α) (boundary : Boundary α),
        columns[feature]? = some column ∧ boundary ∈ boundaries column node.counts ∧
          score? measure node.weightSum boundary.less boundary.greater = some score ∧
            cut = { feature, threshold := boundary.threshold } := by
  rw [mem_offers_iff]
  simp only [allFeatures, List.mem_map, List.mem_range]
  constructor
  · rintro ⟨_, ⟨feature, -, rfl⟩, column, boundary, found, properties⟩
    exact ⟨feature, column, boundary, found, properties⟩
  · rintro ⟨feature, column, boundary, found, properties⟩
    obtain ⟨inside, -⟩ := List.getElem?_eq_some_iff.mp found
    exact ⟨Int.ofNat feature, ⟨feature, inside, rfl⟩, column, boundary, found, properties⟩

end Node

namespace Candidate

/-- A boundary that may be chosen is on offer. -/
theorem mem_offers {feature : Nat} {boundary : Boundary α}
    (candidate : Candidate measure node columns feature boundary) :
    ({ feature, threshold := boundary.threshold }, boundary.score measure node.weightSum) ∈
      node.offers measure columns (allFeatures columns.length) := by
  obtain ⟨column, found, member⟩ := candidate.offered
  exact Node.mem_offers.mpr ⟨feature, column, boundary, found, member,
    score?_eq_some.mpr ⟨candidate.less_mixed, candidate.greater_mixed, rfl⟩, rfl⟩

/-- What is on offer below the impurity of the node is a boundary that may be chosen. -/
theorem of_mem_offers {chosen : Cut α × α}
    (member : chosen ∈ node.offers measure columns (allFeatures columns.length))
    (lower : Scalar.lt chosen.2 node.impurity = true) :
    ∃ feature boundary, Candidate measure node columns feature boundary ∧
      boundary.score measure node.weightSum = chosen.2 := by
  obtain ⟨cut, score⟩ := chosen
  obtain ⟨feature, column, boundary, found, boundaryMember, scored, -⟩ :=
    Node.mem_offers.mp member
  obtain ⟨less, greater, rfl⟩ := score?_eq_some.mp scored
  exact ⟨feature, boundary, ⟨⟨column, found, boundaryMember⟩, less, greater, lower⟩, rfl⟩

end Candidate

variable [Scalar.Ordered α]

/-- The first of the lowest offers: none before it is as low, and none after it is lower. -/
def FirstLowest (offers : List (Cut α × α)) (chosen : Cut α × α) : Prop :=
  ∃ before after, offers = before ++ chosen :: after ∧
    (∀ other ∈ before, Scalar.le other.2 chosen.2 = false) ∧
    ∀ other ∈ after, Scalar.lt other.2 chosen.2 = false

namespace FirstLowest

variable {offers : List (Cut α × α)} {chosen first : Cut α × α}

omit [Scalar.Ordered α] in
theorem mem (firstLowest : FirstLowest offers chosen) : chosen ∈ offers := by
  obtain ⟨before, after, rfl, -, -⟩ := firstLowest
  exact List.mem_append_right _ List.mem_cons_self

omit [Scalar.Ordered α] in
/-- An offer that is not as low may come before the chosen one. -/
theorem cons (firstLowest : FirstLowest offers chosen)
    (higher : Scalar.le first.2 chosen.2 = false) :
    FirstLowest (first :: offers) chosen := by
  obtain ⟨before, after, rfl, notAsLow, notLower⟩ := firstLowest
  exact ⟨first :: before, after, rfl, List.forall_mem_cons.mpr ⟨higher, notAsLow⟩, notLower⟩

/-- No offer is lower than the chosen one. -/
theorem not_lt (firstLowest : FirstLowest offers chosen) :
    ∀ other ∈ offers, Scalar.lt other.2 chosen.2 = false := by
  obtain ⟨before, after, rfl, notAsLow, notLower⟩ := firstLowest
  intro other member
  rcases List.mem_append.mp member with early | late
  · refine Bool.eq_false_iff.mpr fun less => ?_
    have higher := notAsLow other early
    rw [Scalar.Ordered.le_of_lt less] at higher
    cases higher
  · rcases List.mem_cons.mp late with rfl | late
    · exact Scalar.Ordered.lt_irrefl _
    · exact notLower other late

end FirstLowest

/-- Of some offers the first of the lowest is kept, if it is lower than the start, and else the
start. -/
theorem Best.foldl_offer_eq (offers : List (Cut α × α)) (best : Best α) :
    (offers.foldl offer best = best ∧
      ∀ other ∈ offers, Scalar.lt other.2 best.score = false) ∨
    ∃ chosen, FirstLowest offers chosen ∧ Scalar.lt chosen.2 best.score = true ∧
      offers.foldl offer best = { cut := some chosen.1, score := chosen.2 } := by
  induction offers generalizing best with
  | nil => exact .inl ⟨rfl, fun other member => by cases member⟩
  | cons first rest ih =>
      rw [List.foldl_cons]
      cases lower : Scalar.lt first.2 best.score with
      | false =>
          rw [show best.offer first = best by simp [offer, lower]]
          rcases ih best with ⟨same, notLower⟩ | ⟨chosen, firstLowest, chosenLower, same⟩
          · exact .inl ⟨same, List.forall_mem_cons.mpr ⟨lower, notLower⟩⟩
          · -- if the first offer were as low as the chosen one, it would be lower than the start
            refine .inr ⟨chosen, firstLowest.cons (Bool.eq_false_iff.mpr fun atMost => ?_),
              chosenLower, same⟩
            rw [Scalar.Ordered.lt_of_le_of_lt atMost chosenLower] at lower
            cases lower
      | true =>
          rw [show best.offer first = { cut := some first.1, score := first.2 } by
            simp [offer, lower]]
          rcases ih { cut := some first.1, score := first.2 } with
            ⟨same, notLower⟩ | ⟨chosen, firstLowest, chosenLower, same⟩
          · exact .inr ⟨first,
              ⟨[], rest, rfl, fun _ none => (List.not_mem_nil none).elim, notLower⟩,
              lower, same⟩
          · exact .inr ⟨chosen, firstLowest.cons (Scalar.Ordered.not_le_of_lt chosenLower),
              Scalar.Ordered.lt_trans chosenLower lower, same⟩

/-- Of some offers and a start, one is kept that is lower than the start, or the start itself; and
no offer is lower than what is kept. -/
theorem Best.foldl_offer (offers : List (Cut α × α)) (best : Best α) :
    (offers.foldl offer best = best ∨ ∃ chosen ∈ offers,
      Scalar.lt chosen.2 best.score = true ∧
        offers.foldl offer best = { cut := some chosen.1, score := chosen.2 }) ∧
    ∀ other ∈ offers, Scalar.lt other.2 (offers.foldl offer best).score = false := by
  rcases foldl_offer_eq offers best with ⟨same, notLower⟩ | ⟨chosen, firstLowest, lower, same⟩
  · rw [same]
    exact ⟨.inl rfl, notLower⟩
  · rw [same]
    exact ⟨.inr ⟨chosen, firstLowest.mem, lower, rfl⟩, firstLowest.not_lt⟩

/-- The full search comes to an accepted cut exactly if some boundary may be chosen, and the lowest
of their scores lowers the impurity enough.  Equal scores have to lower it alike. -/
theorem Node.finds_iff {width : Nat} {least : α} (live : node.columns = some columns)
    (length : columns.length = width)
    (alike : ∀ {left right : α}, Scalar.eq left right = true →
      Scalar.lt left node.impurity = true → node.impurity - left = node.impurity - right) :
    (∃ cut, node.Finds measure width least cut) ↔
      ∃ feature boundary, Candidate measure node columns feature boundary ∧
        (∀ otherFeature other, Candidate measure node columns otherFeature other →
          Scalar.lt (other.score measure node.weightSum)
            (boundary.score measure node.weightSum) = false) ∧
        Scalar.le least
          (node.weightSum * (node.impurity - boundary.score measure node.weightSum)) = true := by
  subst length
  have known : AllKnown columns (allFeatures columns.length) := fun feature => mem_allFeatures
  have searched := searchAll_eq measure live known
  obtain ⟨kept, lowest⟩ := Best.foldl_offer
    (node.offers measure columns (allFeatures columns.length)) (Best.none node)
  generalize (node.offers measure columns (allFeatures columns.length)).foldl Best.offer
    (Best.none node) = best at searched kept lowest
  constructor
  · rintro ⟨cut, other, found, accepted⟩
    obtain rfl := Except.ok.inj (searched.symm.trans found)
    obtain ⟨cutEq, enough⟩ := Option.filter_eq_some_iff.mp accepted
    rcases kept with rfl | ⟨chosen, member, lower, rfl⟩
    · cases cutEq
    · obtain ⟨feature, boundary, candidate, scoreEq⟩ := Candidate.of_mem_offers member lower
      refine ⟨feature, boundary, candidate, fun otherFeature other otherCandidate => ?_, ?_⟩
      · rw [scoreEq]
        exact lowest _ otherCandidate.mem_offers
      · rw [scoreEq]
        exact enough
  · rintro ⟨feature, boundary, candidate, minimal, enough⟩
    have notLower := lowest _ candidate.mem_offers
    rcases kept with rfl | ⟨chosen, member, lower, rfl⟩
    · rw [Best.none, candidate.improves] at notLower
      cases notLower
    · obtain ⟨chosenFeature, chosenBoundary, chosenCandidate, scoreEq⟩ :=
        Candidate.of_mem_offers member lower
      have notHigher := minimal _ _ chosenCandidate
      rw [scoreEq] at notHigher
      have same : Scalar.eq (boundary.score measure node.weightSum) chosen.2 = true :=
        Scalar.Ordered.eq_iff.mpr ⟨(Scalar.Ordered.isNumber_of_lt candidate.improves).1,
          (Scalar.Ordered.isNumber_of_lt lower).1, notLower, notHigher⟩
      refine ⟨chosen.1, _, searched, Option.filter_eq_some_iff.mpr ⟨rfl, ?_⟩⟩
      rw [Node.decrease, ← alike same candidate.improves]
      exact enough

end DecisionTree.Growth
