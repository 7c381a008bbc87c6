import DecisionTree.Growth.Split
import DecisionTree.Proofs.Draws
import DecisionTree.Proofs.Outcome

/-!
# What a search finds

A search over known features always gives a result.  If the result has a cut, its threshold is
the midpoint of two consecutive entries of a searched column, and the score is that of the
entries up to and including the first of the two and of the others (`search_justified`), whichever
way the node is searched and whatever the arithmetic does.
-/

namespace DecisionTree.Growth

variable {α σ : Type} [Scalar α]

/-- A cut half way between two consecutive entries of one of some columns. -/
structure Cut.Between (columns : List (Column α)) (cut : Cut α) (column : Column α) (place : Nat)
    (lower upper : Entry α) : Prop where
  nonneg : 0 ≤ cut.feature
  column_eq : columns[cut.feature.toNat]? = some column
  lower_eq : column.entries[place]? = some lower
  upper_eq : column.entries[place + 1]? = some upper
  threshold_eq : cut.threshold = Scalar.midpoint lower.value upper.value

/-- The histogram of the entries up to and including the one at a place. -/
def lessAt (column : Column α) (total : List α) (place : Nat) : List α :=
  (column.entries.take (place + 1)).foldl (fun less entry => Histogram.plus less entry.counts)
    (Histogram.zero total.length)

/-- A score of the entries of a column up to and including the one at a place. -/
def Scored (measure : Measure α) (node : Node α) (column : Column α) (place : Nat) (score : α) :
    Prop :=
  ∃ greater, score? measure node.weightSum (lessAt column node.counts place) greater = some score

/-- The histogram of the entries after the one at a place, as a search comes to it: the others are
taken away one by one, or all at once. -/
inductive GreaterAt (column : Column α) (total : List α) (place : Nat) : List α → Prop
  | oneByOne : GreaterAt column total place ((column.entries.take (place + 1)).foldl
      (fun greater entry => Histogram.minus greater entry.counts) total)
  | atOnce : GreaterAt column total place (Histogram.minus total (lessAt column total place))

/-- A score of both sides of the boundary after the entry at a place. -/
def Weighed (measure : Measure α) (node : Node α) (column : Column α) (place : Nat) (score : α) :
    Prop :=
  ∃ greater, GreaterAt column node.counts place greater ∧
    score? measure node.weightSum (lessAt column node.counts place) greater = some score

/-- What was found so far is a scored cut of one of the columns, or nothing at all. -/
def Best.Justified (measure : Measure α) (node : Node α) (columns : List (Column α))
    (best : Best α) : Prop :=
  ∀ cut, best.cut = some cut →
    ∃ column place lower upper,
      cut.Between columns column place lower upper ∧ Weighed measure node column place best.score

variable {measure : Measure α} {node : Node α} {columns : List (Column α)} {column : Column α}
variable {best : Best α}

/-- A boundary has a score if neither side counts as pure. -/
theorem score?_eq_some {weight score : α} {less greater : List α} :
    score? measure weight less greater = some score ↔
      Scalar.lt pureBound (measure.weighted less) = true ∧
        Scalar.lt pureBound (measure.weighted greater) = true ∧
          score = (measure.weighted less + measure.weighted greater) / weight := by
  unfold score?
  simp only
  split
  next mixed =>
    rw [Bool.and_eq_true] at mixed
    rw [Option.some.injEq, eq_comm, and_iff_right mixed.1, and_iff_right mixed.2]
  next pure =>
    rw [Bool.and_eq_true] at pure
    constructor
    · intro impossible
      cases impossible
    · rintro ⟨less, greater, -⟩
      exact absurd ⟨less, greater⟩ pure

theorem Weighed.scored {place : Nat} {score : α}
    (weighed : Weighed measure node column place score) :
    Scored measure node column place score := by
  obtain ⟨greater, -, scored⟩ := weighed
  exact ⟨greater, scored⟩

theorem Best.justified_none : (Best.none node).Justified measure node columns := by
  intro cut impossible
  cases impossible

/-- Updating with a scored cut keeps what was found justified. -/
theorem Best.Justified.update (justified : best.Justified measure node columns) {feature : Int}
    {threshold : α} {score : Option α} {place : Nat} {lower upper : Entry α}
    (between : Cut.Between columns { feature, threshold } column place lower upper)
    (weighed : ∀ value, score = some value → Weighed measure node column place value) :
    (best.update feature threshold score).Justified measure node columns := by
  intro cut found
  cases score with
  | none => exact justified cut found
  | some value =>
      simp only [Best.update] at found ⊢
      split at found
      next improved =>
        obtain rfl := Option.some.inj found
        rw [if_pos improved]
        exact ⟨column, place, lower, upper, between, weighed value rfl⟩
      next worse =>
        rw [if_neg worse]
        exact justified cut found

/-- There is a boundary after each entry but the last, with the values beside it and the histograms
of the entries below and above it. -/
theorem boundariesFrom_getElem? (index : Nat) (less greater : List α) (entries : List (Entry α))
    (place : Nat) :
    (boundariesFrom index less greater entries)[place]? =
      (entries[place]?).bind fun lower => (entries[place + 1]?).map fun upper =>
        { index := index + place
          lower := lower.value
          upper := upper.value
          less := (entries.take (place + 1)).foldl
            (fun less entry => Histogram.plus less entry.counts) less
          greater := (entries.take (place + 1)).foldl
            (fun greater entry => Histogram.minus greater entry.counts) greater } := by
  induction entries generalizing index less greater place with
  | nil => rfl
  | cons entry rest ih =>
      cases rest with
      | nil => cases place <;> rfl
      | cons next others =>
          rw [boundariesFrom]
          cases place with
          | zero => rfl
          | succ place =>
              rw [List.getElem?_cons_succ, ih, Nat.add_assoc, Nat.add_comm 1]
              rfl

theorem mem_boundariesFrom {index : Nat} {less greater : List α} {entries : List (Entry α)}
    {boundary : Boundary α} (member : boundary ∈ boundariesFrom index less greater entries) :
    ∃ place lower upper, entries[place]? = some lower ∧ entries[place + 1]? = some upper ∧
      boundary.lower = lower.value ∧ boundary.upper = upper.value ∧
      boundary.less = (entries.take (place + 1)).foldl
        (fun less entry => Histogram.plus less entry.counts) less ∧
      boundary.greater = (entries.take (place + 1)).foldl
        (fun greater entry => Histogram.minus greater entry.counts) greater := by
  obtain ⟨place, found⟩ := List.getElem?_of_mem member
  rw [boundariesFrom_getElem?] at found
  obtain ⟨lower, lowerEq, found⟩ := Option.bind_eq_some_iff.mp found
  obtain ⟨upper, upperEq, rfl⟩ := Option.map_eq_some_iff.mp found
  exact ⟨place, lower, upper, lowerEq, upperEq, rfl, rfl, rfl, rfl⟩

/-- A drawn place has the entries up to and including it below. -/
theorem sidesAt_ofNat (column : Column α) (total : List α) (place : Nat) :
    sidesAt column.entries total place =
      (lessAt column total place, Histogram.minus total (lessAt column total place)) := by
  have place_eq : ((place : Int) + 1) = ((place + 1 : Nat) : Int) := rfl
  rw [sidesAt, place_eq, Position.before_ofNat]
  rfl

/-- A drawn place that is followed by another one has a threshold. -/
theorem exists_thresholdAt? {entries : List (Entry α)} {place : Nat}
    (inside : place + 1 < entries.length) :
    ∃ lower upper, entries[place]? = some lower ∧ entries[place + 1]? = some upper ∧
      thresholdAt? entries place = some (Scalar.midpoint lower.value upper.value) := by
  have lowerEq := List.getElem?_eq_getElem (Nat.lt_of_succ_lt inside)
  have upperEq := List.getElem?_eq_getElem inside
  refine ⟨_, _, lowerEq, upperEq, ?_⟩
  have upperPlace : ((place : Int) + 1) = ((place + 1 : Nat) : Int) := rfl
  rw [thresholdAt?, upperPlace, Position.get?_ofNat, Position.get?_ofNat, lowerEq, upperEq]
  rfl

namespace Node

/-- All features name columns. -/
def AllKnown (columns : List (Column α)) (features : List Int) : Prop :=
  ∀ feature ∈ features, 0 ≤ feature ∧ feature < columns.length

omit [Scalar α] in
theorem column_eq (live : node.columns = some columns) {feature : Int} (nonneg : 0 ≤ feature)
    (inside : feature < columns.length) :
    ∃ column, columns[feature.toNat]? = some column ∧ node.column feature = .ok column := by
  have isPlace : feature.toNat < columns.length := by omega
  refine ⟨columns[feature.toNat], List.getElem?_eq_getElem isPlace, ?_⟩
  have found := Position.get?_ofNat columns feature.toNat
  rw [Int.toNat_of_nonneg nonneg, List.getElem?_eq_getElem isPlace] at found
  simp [column, live, found]

/-- Scoring the boundaries of a column keeps what was found justified. -/
theorem searchColumn_justified (justified : best.Justified measure node columns) {feature : Int}
    (nonneg : 0 ≤ feature) (found : columns[feature.toNat]? = some column) :
    (node.searchColumn measure best feature column).Justified measure node columns := by
  unfold searchColumn boundaries
  refine List.foldlRecOn _ _ justified ?_
  intro current currentJustified boundary member
  obtain ⟨place, lower, upper, lowerEq, upperEq, lowerValue, upperValue, lessEq, greaterEq⟩ :=
    mem_boundariesFrom member
  refine currentJustified.update ⟨nonneg, found, lowerEq, upperEq, ?_⟩ ?_
  · simp only [Boundary.threshold, lowerValue, upperValue]
  · intro value scored
    rw [lessEq, greaterEq] at scored
    exact ⟨_, .oneByOne, scored⟩

/-- The full search finds a justified cut or none. -/
theorem searchAll_justified (measure : Measure α) (live : node.columns = some columns)
    {features : List Int} (known : AllKnown columns features) :
    ∃ best, node.searchAll measure features = .ok best ∧
      best.Justified measure node columns := by
  refine Outcome.exists_foldlM_eq_ok Best.justified_none ?_
  intro best feature member justified
  obtain ⟨nonneg, inside⟩ := known feature member
  obtain ⟨column, found, looked⟩ := column_eq live nonneg inside
  exact ⟨_, Outcome.bind_eq_ok.mpr ⟨column, looked, rfl⟩,
    searchColumn_justified justified nonneg found⟩

/-- A drawn boundary that exists is scored without failure. -/
theorem scoreDrawn_justified (justified : best.Justified measure node columns) {feature : Int}
    (nonneg : 0 ≤ feature) (found : columns[feature.toNat]? = some column) {place : Nat}
    (inside : place + 1 < column.entries.length) :
    ∃ next, node.scoreDrawn measure best feature column.entries place = .ok next ∧
      next.Justified measure node columns := by
  obtain ⟨lower, upper, lowerEq, upperEq, threshold⟩ := exists_thresholdAt? inside
  unfold scoreDrawn
  simp only
  split
  next improved =>
    rw [threshold]
    refine ⟨_, rfl, justified.update ⟨nonneg, found, lowerEq, upperEq, rfl⟩ ?_⟩
    intro value scored
    rw [sidesAt_ofNat] at scored
    exact ⟨_, .atOnce, scored⟩
  next => exact ⟨best, rfl, justified⟩

/-- The random search finds a justified cut or none. -/
theorem searchRandom_justified {draws : Draws σ} (bounded : draws.Bounded)
    (live : node.columns = some columns) {features : List Int}
    (known : AllKnown columns features) (source : σ) :
    ∃ found, node.searchRandom measure draws features source = .ok found ∧
      found.1.Justified measure node columns := by
  refine Outcome.exists_foldlM_eq_ok Best.justified_none ?_
  rintro ⟨best, source⟩ feature member justified
  obtain ⟨nonneg, inside⟩ := known feature member
  obtain ⟨column, found, looked⟩ := column_eq live nonneg inside
  simp only [looked, bind, Except.bind]
  split
  next short => exact ⟨_, rfl, justified⟩
  next long =>
    have drawn := bounded (column.entries.length - 1) source (by omega)
    obtain ⟨place, placeEq⟩ := Int.eq_ofNat_of_zero_le drawn.1
    have isBoundary : place + 1 < column.entries.length := by omega
    obtain ⟨next, scored, nextJustified⟩ := scoreDrawn_justified justified nonneg found isBoundary
    rw [placeEq, scored]
    exact ⟨_, rfl, nextJustified⟩

/-- The full search draws nothing. -/
theorem search_best {features : List Int} (found : node.searchAll measure features = .ok best)
    (draws : Draws σ) (source : σ) :
    node.search .best measure draws features source = .ok (best, source) := by
  rw [search, found]
  rfl

/-- Either search finds a justified cut or none. -/
theorem search_justified (measure : Measure α) {draws : Draws σ} (bounded : draws.Bounded)
    (live : node.columns = some columns) {features : List Int}
    (known : AllKnown columns features) (splitter : Splitter) (source : σ) :
    ∃ found, node.search splitter measure draws features source = .ok found ∧
      found.1.Justified measure node columns := by
  cases splitter with
  | best =>
      obtain ⟨best, found, justified⟩ := searchAll_justified measure live known
      exact ⟨(best, source), search_best found draws source, justified⟩
  | random => exact searchRandom_justified bounded live known source

end Node

end DecisionTree.Growth
