import DecisionTree.Proofs.Growth.Course

/-!
# Three ways to divide a node

The boundary after an entry of a column divides the examples of a node by the place of their
entries: these are the sides that a search scores.  The threshold divides them by the entries
that come before it: these are the children.  And a finished tree sends an example to the left if
its value is at most the threshold.  The three coincide exactly if the threshold lies strictly
between the two values beside the boundary (`Column.Describes.coincide_iff`).
-/

namespace DecisionTree

variable {α σ : Type} [Scalar α]

namespace Column

/-- The ids of the entries up to and including the one at a place. -/
def idsUpTo (column : Column α) (place : Nat) : List Int :=
  (column.entries.take (place + 1)).flatMap Entry.indices

/-- The ids of the entries after the one at a place. -/
def idsAfter (column : Column α) (place : Nat) : List Int :=
  (column.entries.drop (place + 1)).flatMap Entry.indices

/-- The examples before and after a boundary are those on the two sides of a division, and
comparing values with a threshold sends every example to its side. -/
structure Coincide (column : Column α) (place : Nat) (threshold : α) (value : Int → α)
    (left right : List Int) : Prop where
  left_perm : left.Perm (column.idsUpTo place)
  right_perm : right.Perm (column.idsAfter place)
  routed : ∀ index, index ∈ left ∨ index ∈ right →
    (Scalar.le (value index) threshold = true ↔ index ∈ left)

variable {targets : Targets α} {value other : Int → α} {ids left right : List Int}
variable {column : Column α} {place : Nat} {lower upper entry : Entry α} {threshold : α}

omit [Scalar α] in
theorem idsUpTo_append_idsAfter (column : Column α) (place : Nat) :
    column.idsUpTo place ++ column.idsAfter place = column.indices := by
  rw [idsUpTo, idsAfter, ← List.flatMap_append, List.take_append_drop]
  rfl

omit [Scalar α] in
theorem mem_idsUpTo {index : Int} :
    index ∈ column.idsUpTo place ↔
      ∃ before entry, before ≤ place ∧ column.entries[before]? = some entry ∧
        index ∈ entry.indices := by
  simp only [idsUpTo, List.mem_flatMap, List.mem_take_iff_getElem, List.getElem?_eq_some_iff]
  constructor
  · rintro ⟨entry, ⟨before, inside, rfl⟩, member⟩
    exact ⟨before, _, by omega, ⟨by omega, rfl⟩, member⟩
  · rintro ⟨before, entry, isBefore, ⟨inside, rfl⟩, member⟩
    exact ⟨_, ⟨before, by omega, rfl⟩, member⟩

omit [Scalar α] in
theorem mem_idsAfter {index : Int} :
    index ∈ column.idsAfter place ↔
      ∃ after entry, place < after ∧ column.entries[after]? = some entry ∧
        index ∈ entry.indices := by
  simp only [idsAfter, List.mem_flatMap, List.mem_drop_iff_getElem, List.getElem?_eq_some_iff]
  constructor
  · rintro ⟨entry, ⟨after, inside, rfl⟩, member⟩
    exact ⟨place + 1 + after, _, by omega, ⟨by omega, rfl⟩, member⟩
  · rintro ⟨after, entry, isAfter, ⟨inside, rfl⟩, member⟩
    obtain ⟨offset, rfl⟩ := Nat.exists_eq_add_of_lt isAfter
    refine ⟨_, ⟨offset, by omega, ?_⟩, member⟩
    congr 1
    omega

namespace Describes

variable [Scalar.Ordered α]

/-- Equal values are described alike. -/
theorem congr_value (describes : column.Describes targets value ids)
    (same : ∀ index ∈ ids, Scalar.eq (other index) (value index) = true) :
    column.Describes targets other ids := by
  refine { describes with valued := fun entry member index held => ?_ }
  have isId := describes.perm.mem_iff.mp (mem_indices_of_mem member held)
  exact Scalar.Ordered.eq_trans (same index isId) (describes.valued entry member index held)

/-- An example compares with a threshold like its entry. -/
theorem le_entry (describes : column.Describes targets value ids) (member : entry ∈ column.entries)
    {index : Int} (held : index ∈ entry.indices) (threshold : α) :
    Scalar.le threshold (value index) = Scalar.le threshold entry.value ∧
      Scalar.le (value index) threshold = Scalar.le entry.value threshold :=
  have same := describes.valued entry member index held
  ⟨Scalar.Ordered.le_congr_right same, Scalar.Ordered.le_congr_left same⟩

omit [Scalar.Ordered α] in
theorem lt_of_place_lt (describes : column.Describes targets value ids) {first second : Nat}
    (firstEq : column.entries[first]? = some lower)
    (secondEq : column.entries[second]? = some upper)
    (before : first < second) : Scalar.lt lower.value upper.value = true := by
  obtain ⟨firstInside, rfl⟩ := List.getElem?_eq_some_iff.mp firstEq
  obtain ⟨secondInside, rfl⟩ := List.getElem?_eq_some_iff.mp secondEq
  have pairs := List.pairwise_iff_getElem.mp describes.ascending
  exact pairs first second firstInside secondInside before

omit [Scalar.Ordered α] in
theorem perm_sides (describes : column.Describes targets value ids) (place : Nat) :
    (column.idsUpTo place ++ column.idsAfter place).Perm ids := by
  rw [idsUpTo_append_idsAfter]
  exact describes.perm

/-- What stands before a boundary is below a threshold that exceeds the value at the boundary. -/
theorem lt_of_mem_idsUpTo (describes : column.Describes targets value ids)
    (lowerEq : column.entries[place]? = some lower)
    (above : Scalar.lt lower.value threshold = true) {index : Int}
    (member : index ∈ column.idsUpTo place) : Scalar.lt (value index) threshold = true := by
  obtain ⟨first, entry, isBefore, found, held⟩ := mem_idsUpTo.mp member
  have same := describes.valued entry (List.mem_of_getElem? found) index held
  refine Scalar.Ordered.lt_of_eq_of_lt same ?_
  rcases Nat.lt_or_eq_of_le isBefore with less | rfl
  · exact Scalar.Ordered.lt_trans (describes.lt_of_place_lt found lowerEq less) above
  · rw [lowerEq] at found
    obtain rfl := Option.some.inj found
    exact above

/-- What stands after a boundary is above a threshold that the next value exceeds. -/
theorem lt_of_mem_idsAfter (describes : column.Describes targets value ids)
    (upperEq : column.entries[place + 1]? = some upper)
    (below : Scalar.lt threshold upper.value = true) {index : Int}
    (member : index ∈ column.idsAfter place) : Scalar.lt threshold (value index) = true := by
  obtain ⟨second, entry, isAfter, found, held⟩ := mem_idsAfter.mp member
  have same := describes.valued entry (List.mem_of_getElem? found) index held
  refine Scalar.Ordered.lt_of_lt_of_eq ?_ (Scalar.Ordered.eq_symm same)
  rcases Nat.lt_or_eq_of_le (Nat.succ_le_of_lt isAfter) with less | rfl
  · exact Scalar.Ordered.lt_trans below (describes.lt_of_place_lt upperEq found less)
  · rw [upperEq] at found
    obtain rfl := Option.some.inj found
    exact below

/-- A threshold that separates the values beside a boundary divides the examples there. -/
theorem filter_goesLeft (describes : column.Describes targets value ids)
    (lowerEq : column.entries[place]? = some lower)
    (upperEq : column.entries[place + 1]? = some upper)
    (separates : Scalar.Separates lower.value threshold upper.value) :
    (ids.filter (Growth.goesLeft threshold value)).Perm (column.idsUpTo place) ∧
      (ids.filter fun index => !Growth.goesLeft threshold value index).Perm
        (column.idsAfter place) := by
  obtain ⟨above, below⟩ := separates
  have before : ∀ index ∈ column.idsUpTo place, Growth.goesLeft threshold value index = true := by
    intro index member
    have less := describes.lt_of_mem_idsUpTo lowerEq above member
    rw [Growth.goesLeft, Scalar.Ordered.not_le_of_lt less]
    rfl
  have after : ∀ index ∈ column.idsAfter place, Growth.goesLeft threshold value index = false := by
    intro index member
    have greater := describes.lt_of_mem_idsAfter upperEq below member
    rw [Growth.goesLeft, Scalar.Ordered.le_of_lt greater]
    rfl
  have perm := (describes.perm_sides place).symm
  constructor
  · refine (perm.filter _).trans (.of_eq ?_)
    have none : (column.idsAfter place).filter (Growth.goesLeft threshold value) = [] :=
      List.filter_eq_nil_iff.mpr fun index member => Bool.eq_false_iff.mp (after index member)
    rw [List.filter_append, List.filter_eq_self.mpr before, none, List.append_nil]
  · refine (perm.filter _).trans (.of_eq ?_)
    have none : (column.idsUpTo place).filter
        (fun index => !Growth.goesLeft threshold value index) = [] := by
      apply List.filter_eq_nil_iff.mpr
      intro index member
      rw [before index member]
      exact Bool.false_ne_true
    have all : (column.idsAfter place).filter
        (fun index => !Growth.goesLeft threshold value index) = column.idsAfter place := by
      apply List.filter_eq_self.mpr
      intro index member
      rw [after index member]
      rfl
    rw [List.filter_append, none, all, List.nil_append]

section Sides

variable (describes : column.Describes targets value ids)
variable (lowerEq : column.entries[place]? = some lower)
variable (upperEq : column.entries[place + 1]? = some upper)
variable (leftPerm : left.Perm (ids.filter (Growth.goesLeft threshold value)))
variable (rightPerm : right.Perm (ids.filter fun index => !Growth.goesLeft threshold value index))

include leftPerm in
omit [Scalar.Ordered α] in
theorem not_le_of_mem_left {index : Int} (member : index ∈ left) :
    Scalar.le threshold (value index) = false := by
  obtain ⟨-, goes⟩ := List.mem_filter.mp (leftPerm.mem_iff.mp member)
  rwa [Growth.goesLeft, Bool.not_eq_true'] at goes

include rightPerm in
omit [Scalar.Ordered α] in
theorem le_of_mem_right {index : Int} (member : index ∈ right) :
    Scalar.le threshold (value index) = true := by
  obtain ⟨-, goes⟩ := List.mem_filter.mp (rightPerm.mem_iff.mp member)
  rwa [Growth.goesLeft, Bool.not_not] at goes

include describes lowerEq upperEq leftPerm rightPerm

theorem coincide_of_separates (separates : Scalar.Separates lower.value threshold upper.value) :
    column.Coincide place threshold value left right := by
  obtain ⟨lefts, rights⟩ := describes.filter_goesLeft lowerEq upperEq separates
  obtain ⟨above, below⟩ := separates
  refine ⟨leftPerm.trans lefts, rightPerm.trans rights, ?_⟩
  rintro index (isLeft | isRight)
  · have isBefore := (leftPerm.trans lefts).mem_iff.mp isLeft
    have less := describes.lt_of_mem_idsUpTo lowerEq above isBefore
    exact ⟨fun _ => isLeft, fun _ => Scalar.Ordered.le_of_lt less⟩
  · have isAfter := (rightPerm.trans rights).mem_iff.mp isRight
    have greater := describes.lt_of_mem_idsAfter upperEq below isAfter
    rw [Scalar.Ordered.not_le_of_lt greater]
    constructor
    · intro impossible
      cases impossible
    · intro isLeft
      rw [← not_le_of_mem_left leftPerm isLeft, le_of_mem_right rightPerm isRight]

theorem separates_of_coincide (coincide : column.Coincide place threshold value left right) :
    Scalar.Separates lower.value threshold upper.value := by
  have lowerMember := List.mem_of_getElem? lowerEq
  have upperMember := List.mem_of_getElem? upperEq
  obtain ⟨first, firstHeld⟩ :=
    List.exists_mem_of_ne_nil _ (describes.settled lower lowerMember).nonempty
  obtain ⟨second, secondHeld⟩ :=
    List.exists_mem_of_ne_nil _ (describes.settled upper upperMember).nonempty
  have firstLeft : first ∈ left := coincide.left_perm.mem_iff.mpr
    (mem_idsUpTo.mpr ⟨place, lower, Nat.le_refl _, lowerEq, firstHeld⟩)
  have secondRight : second ∈ right := coincide.right_perm.mem_iff.mpr
    (mem_idsAfter.mpr ⟨place + 1, upper, Nat.lt_succ_self _, upperEq, secondHeld⟩)
  obtain ⟨firstBelow, firstAtMost⟩ := describes.le_entry lowerMember firstHeld threshold
  obtain ⟨secondBelow, secondAtMost⟩ := describes.le_entry upperMember secondHeld threshold
  constructor
  · apply Scalar.Ordered.lt_of_le_not_le
    · rw [← firstAtMost]
      exact (coincide.routed first (.inl firstLeft)).mpr firstLeft
    · rw [← firstBelow]
      exact not_le_of_mem_left leftPerm firstLeft
  · have greater := le_of_mem_right rightPerm secondRight
    apply Scalar.Ordered.lt_of_le_not_le
    · rw [← secondBelow]
      exact greater
    · rw [← secondAtMost]
      apply Bool.eq_false_iff.mpr
      intro atMost
      have secondLeft := (coincide.routed second (.inr secondRight)).mp atMost
      rw [not_le_of_mem_left leftPerm secondLeft] at greater
      cases greater

/-- The sides of a boundary, the sides of a threshold and the routes of the examples coincide
exactly if the threshold separates the values beside the boundary. -/
theorem coincide_iff :
    column.Coincide place threshold value left right ↔
      Scalar.Separates lower.value threshold upper.value := by
  constructor
  · exact separates_of_coincide describes lowerEq upperEq leftPerm rightPerm
  · exact coincide_of_separates describes lowerEq upperEq leftPerm rightPerm

end Sides

end Describes

end Column

namespace Growth

/-- Every division of a node is at a threshold that separates the values beside it. -/
def Ground.Separated (ground : Ground α) : Prop :=
  ∀ {origins : List (Origin α)} {id left right place : Nat} {node : Node α} {origin : Origin α}
    {cut : Cut α} {column : Column α} {lower upper : Entry α}, origin.Sound ground →
      Branching ground origins id node origin left right cut column place lower upper →
        Scalar.Separates lower.value cut.threshold upper.value

variable [Scalar.Ordered α] {policy : Policy α} {draws : Draws σ} {dataset : Dataset α}
variable {rows : List (List α)} {origins : List (Origin α)} {id left right : Nat} {node : Node α}
variable {origin : Origin α} {cut : Cut α} {column : Column α} {place : Nat}
variable {lower upper : Entry α}

omit [Scalar.Ordered α] in
/-- The values beside a cut ascend. -/
theorem Branching.values_lt {ground : Ground α} (originSound : origin.Sound ground)
    (branching : Branching ground origins id node origin left right cut column place lower upper) :
    Scalar.lt lower.value upper.value = true := by
  have between := branching.division.between
  have describes := originSound.columnsOf.describes _ column between.column_eq
  exact describes.lt_of_place_lt between.lower_eq between.upper_eq (Nat.lt_succ_self place)

omit [Scalar.Ordered α] in
theorem Branching.feature_lt (originSound : origin.Sound (groundOf policy dataset rows))
    (branching : Branching (groundOf policy dataset rows) origins id node origin left right cut
      column place lower upper) : cut.feature.toNat < dataset.features.size :=
  originSound.feature_lt branching.division.between

omit [Scalar.Ordered α] in
/-- The rows hold the values that a node was divided by, up to the sign of zeros. -/
theorem Branching.eq_cell (fromRows : dataset.FromRows rows)
    (originSound : origin.Sound (groundOf policy dataset rows))
    (branching : Branching (groundOf policy dataset rows) origins id node origin left right cut
      column place lower upper) :
    ∀ index ∈ origin.ids, Scalar.eq (Dataset.cell rows cut.feature.toNat index)
      ((groundOf policy dataset rows).value cut.feature.toNat index) = true := by
  intro index member
  exact Dataset.FromRows.eq_clearZero (fromRows.isNumber_cell (branching.feature_lt originSound)
    (Dataset.mem_indices.mpr (originSound.inRange index member)))

/-- The column that a node was divided by describes what the rows hold. -/
theorem Branching.describes_cells (fromRows : dataset.FromRows rows)
    (originSound : origin.Sound (groundOf policy dataset rows))
    (branching : Branching (groundOf policy dataset rows) origins id node origin left right cut
      column place lower upper) :
    column.Describes dataset.targets (Dataset.cell rows cut.feature.toNat) origin.ids :=
  (originSound.columnsOf.describes _ column branching.division.between.column_eq).congr_value
    (branching.eq_cell fromRows originSound)

/-- The values beside a cut are those of two rows, up to the sign of zeros. -/
theorem Branching.exists_cells (fromRows : dataset.FromRows rows)
    (originSound : origin.Sound (groundOf policy dataset rows))
    (branching : Branching (groundOf policy dataset rows) origins id node origin left right cut
      column place lower upper) :
    ∃ first ∈ dataset.indices, ∃ second ∈ dataset.indices,
      Scalar.eq (Dataset.cell rows cut.feature.toNat first) lower.value = true ∧
        Scalar.eq (Dataset.cell rows cut.feature.toNat second) upper.value = true := by
  have describes := branching.describes_cells fromRows originSound
  have inRows : ∀ entry ∈ column.entries, ∃ index ∈ dataset.indices,
      Scalar.eq (Dataset.cell rows cut.feature.toNat index) entry.value = true := by
    intro entry member
    obtain ⟨index, held⟩ := List.exists_mem_of_ne_nil _ (describes.settled entry member).nonempty
    have isId := describes.mem_iff.mp ⟨entry, member, held⟩
    exact ⟨index, Dataset.mem_indices.mpr (originSound.inRange index isId),
      describes.valued entry member index held⟩
  have between := branching.division.between
  obtain ⟨first, firstRow, firstEq⟩ := inRows lower (List.mem_of_getElem? between.lower_eq)
  obtain ⟨second, secondRow, secondEq⟩ := inRows upper (List.mem_of_getElem? between.upper_eq)
  exact ⟨first, firstRow, second, secondRow, firstEq, secondEq⟩

/-- The examples of a node are those of its two children, and the division coincides with its
boundary and with the routes of the rows exactly if the threshold separates the values beside the
boundary. -/
theorem Branching.coincide_iff (fromRows : dataset.FromRows rows)
    (originSound : origin.Sound (groundOf policy dataset rows))
    (branching : Branching (groundOf policy dataset rows) origins id node origin left right cut
      column place lower upper) :
    ∃ below above, origins[left]? = some below ∧ origins[right]? = some above ∧
      (below.ids ++ above.ids).Perm origin.ids ∧
      (column.Coincide place cut.threshold (Dataset.cell rows cut.feature.toNat) below.ids
        above.ids ↔ Scalar.Separates lower.value cut.threshold upper.value) := by
  obtain ⟨below, belowFound, -, belowPerm⟩ := branching.left_origin
  obtain ⟨above, aboveFound, -, abovePerm⟩ := branching.right_origin
  refine ⟨below, above, belowFound, aboveFound, ?_, ?_⟩
  · exact (belowPerm.append abovePerm).trans (List.filter_append_perm _ _)
  · have goesLeft_eq : ∀ index ∈ origin.ids, (groundOf policy dataset rows).goesLeft cut index =
        goesLeft cut.threshold (Dataset.cell rows cut.feature.toNat) index := by
      intro index member
      rw [goesLeft, Scalar.Ordered.le_congr_right
        (branching.eq_cell fromRows originSound index member)]
      rfl
    have lefts := List.filter_congr goesLeft_eq
    have rights := List.filter_congr fun index member => congrArg not (goesLeft_eq index member)
    rw [lefts] at belowPerm
    rw [rights] at abovePerm
    have between := branching.division.between
    exact (branching.describes_cells fromRows originSound).coincide_iff between.lower_eq
      between.upper_eq belowPerm abovePerm

end Growth

end DecisionTree
