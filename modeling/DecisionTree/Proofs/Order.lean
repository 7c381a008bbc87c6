import DecisionTree.Scalar

/-!
# The order of numbers

`Scalar.Ordered` collects what training relies on when it compares values: "less" is a
strict order in which any two numbers are comparable, "equal" is incomparability of numbers,
and "less or equal" is the union of both.  Values that are no numbers compare false with
everything.
-/

namespace DecisionTree.Scalar

variable {α : Type} [Scalar α]

/-- The comparisons are those of a strict order of the numbers. -/
class Ordered (α : Type) [Scalar α] : Prop where
  isNumber_of_lt {left right : α} :
    lt left right = true → isNumber left = true ∧ isNumber right = true
  eq_iff {left right : α} :
    eq left right = true ↔
      isNumber left = true ∧ isNumber right = true ∧
        lt left right = false ∧ lt right left = false
  le_iff {left right : α} :
    le left right = true ↔ lt left right = true ∨ eq left right = true
  lt_trans {left middle right : α} :
    lt left middle = true → lt middle right = true → lt left right = true
  /-- A number lies beyond one of two ordered values. -/
  lt_or_lt {left right : α} (middle : α) :
    lt left right = true → isNumber middle = true →
      lt left middle = true ∨ lt middle right = true

/-- A value lies strictly between two others. -/
def Separates (lower middle upper : α) : Prop :=
  lt lower middle = true ∧ lt middle upper = true

namespace Ordered

variable [Ordered α] {left middle right : α}

theorem lt_irrefl (value : α) : lt value value = false := by
  cases comparison : lt value value with
  | false => rfl
  | true =>
      have number := (isNumber_of_lt comparison).1
      exact (eq_iff.mp number).2.2.1.symm.trans comparison |>.symm

theorem lt_asymm (less : lt left right = true) : lt right left = false := by
  cases comparison : lt right left with
  | false => rfl
  | true =>
      have irrefl := lt_irrefl left
      rw [lt_trans less comparison] at irrefl
      exact irrefl

theorem eq_symm (same : eq left right = true) : eq right left = true := by
  obtain ⟨leftNumber, rightNumber, notLess, notGreater⟩ := eq_iff.mp same
  exact eq_iff.mpr ⟨rightNumber, leftNumber, notGreater, notLess⟩

theorem lt_of_lt_of_eq (less : lt left middle = true) (same : eq middle right = true) :
    lt left right = true := by
  obtain ⟨-, rightNumber, -, notGreater⟩ := eq_iff.mp same
  rcases lt_or_lt right less rightNumber with result | greater
  · exact result
  · simp [notGreater] at greater

theorem lt_of_eq_of_lt (same : eq left middle = true) (less : lt middle right = true) :
    lt left right = true := by
  obtain ⟨leftNumber, -, -, notGreater⟩ := eq_iff.mp same
  rcases lt_or_lt left less leftNumber with greater | result
  · simp [notGreater] at greater
  · exact result

theorem eq_trans (first : eq left middle = true) (second : eq middle right = true) :
    eq left right = true := by
  have leftNumber := (eq_iff.mp first).1
  have rightNumber := (eq_iff.mp second).2.1
  refine eq_iff.mpr ⟨leftNumber, rightNumber, ?_, ?_⟩
  · cases less : lt left right with
    | false => rfl
    | true => simpa [(eq_iff.mp second).2.2.1] using lt_of_eq_of_lt (eq_symm first) less
  · cases greater : lt right left with
    | false => rfl
    | true => simpa [(eq_iff.mp second).2.2.2] using lt_of_lt_of_eq greater first

/-- Two numbers are ordered one way, or equal, or ordered the other way. -/
theorem lt_trichotomy (leftNumber : isNumber left = true) (rightNumber : isNumber right = true) :
    lt left right = true ∨ eq left right = true ∨ lt right left = true := by
  cases less : lt left right with
  | true => exact .inl rfl
  | false =>
      cases greater : lt right left with
      | true => exact .inr (.inr rfl)
      | false => exact .inr (.inl (eq_iff.mpr ⟨leftNumber, rightNumber, less, greater⟩))

/-- Among numbers, "less or equal" is the denial of "greater". -/
theorem le_eq_not_lt (leftNumber : isNumber left = true) (rightNumber : isNumber right = true) :
    le left right = !lt right left := by
  cases greater : lt right left with
  | true =>
      have notLess := lt_asymm greater
      have differ : eq left right = false := by
        cases same : eq left right with
        | false => rfl
        | true => simp [(eq_iff.mp same).2.2.2] at greater
      cases atMost : le left right with
      | false => rfl
      | true => simpa [notLess, differ] using le_iff.mp atMost
  | false =>
      rcases lt_trichotomy leftNumber rightNumber with less | same | more
      · exact le_iff.mpr (.inl less)
      · exact le_iff.mpr (.inr same)
      · simp [greater] at more

theorem le_of_lt (less : lt left right = true) : le left right = true :=
  le_iff.mpr (.inl less)

theorem lt_of_lt_of_le (less : lt left middle = true) (atMost : le middle right = true) :
    lt left right = true := by
  rcases le_iff.mp atMost with more | same
  · exact lt_trans less more
  · exact lt_of_lt_of_eq less same

theorem lt_of_le_of_lt (atMost : le left middle = true) (less : lt middle right = true) :
    lt left right = true := by
  rcases le_iff.mp atMost with more | same
  · exact lt_trans more less
  · exact lt_of_eq_of_lt same less

theorem le_of_le_of_eq (atMost : le left middle = true) (same : eq middle right = true) :
    le left right = true := by
  rcases le_iff.mp atMost with less | equal
  · exact le_of_lt (lt_of_lt_of_eq less same)
  · exact le_iff.mpr (.inr (eq_trans equal same))

theorem le_of_eq_of_le (same : eq left middle = true) (atMost : le middle right = true) :
    le left right = true := by
  rcases le_iff.mp atMost with less | equal
  · exact le_of_lt (lt_of_eq_of_lt same less)
  · exact le_iff.mpr (.inr (eq_trans same equal))

theorem le_trans (first : le left middle = true) (second : le middle right = true) :
    le left right = true := by
  rcases le_iff.mp first with less | same
  · exact le_of_lt (lt_of_lt_of_le less second)
  · exact le_of_eq_of_le same second

theorem not_le_of_lt (less : lt left right = true) : le right left = false := by
  obtain ⟨leftNumber, rightNumber⟩ := isNumber_of_lt less
  rw [le_eq_not_lt rightNumber leftNumber, less]
  rfl

theorem lt_of_le_not_le (atMost : le left right = true) (notAtLeast : le right left = false) :
    lt left right = true := by
  rcases le_iff.mp atMost with less | same
  · exact less
  · have atLeast : le right left = true := le_iff.mpr (.inr (eq_symm same))
    rw [atLeast] at notAtLeast
    cases notAtLeast

/-- Equal values are on the same side of every other value. -/
theorem le_congr_right (same : eq middle right = true) : le left middle = le left right :=
  Bool.eq_iff_iff.mpr
    ⟨fun atMost => le_of_le_of_eq atMost same, fun atMost => le_of_le_of_eq atMost (eq_symm same)⟩

theorem le_congr_left (same : eq left middle = true) : le left right = le middle right :=
  Bool.eq_iff_iff.mpr
    ⟨fun atMost => le_of_eq_of_le (eq_symm same) atMost, fun atMost => le_of_eq_of_le same atMost⟩

end Ordered

section Precedes

variable {left middle right : α}

theorem precedes_iff : precedes left right = true ↔
    lt left right = true ∨ isNumber left = true ∧ isNumber right = false := by
  simp only [precedes, Bool.or_eq_true, Bool.and_eq_true, Bool.not_eq_true']

/-- What comes before a number is smaller. -/
theorem lt_of_precedes (before : precedes left right = true) (number : isNumber right = true) :
    lt left right = true := by
  rcases precedes_iff.mp before with less | ⟨-, notNumber⟩
  · exact less
  · simp [number] at notNumber

variable [Ordered α]

theorem precedes_asymm (before : precedes left right = true) : precedes right left = false := by
  unfold precedes at before ⊢
  cases less : lt left right with
  | true =>
      have numbers := Ordered.isNumber_of_lt less
      simp [Ordered.lt_asymm less, numbers.1]
  | false =>
      simp only [less, Bool.false_or, Bool.and_eq_true, Bool.not_eq_true'] at before
      cases greater : lt right left with
      | true => simp [(Ordered.isNumber_of_lt greater).1] at before
      | false => simp [before.1]

/-- Whatever is put in between comes after the first or before the second. -/
theorem precedes_or_precedes (middle : α) (before : precedes left right = true) :
    precedes left middle = true ∨ precedes middle right = true := by
  simp only [precedes_iff] at before ⊢
  cases number : isNumber middle with
  | true =>
      rcases before with less | ⟨_, notNumber⟩
      · rcases Ordered.lt_or_lt middle less number with first | second
        · exact .inl (.inl first)
        · exact .inr (.inl second)
      · exact .inr (.inr ⟨rfl, notNumber⟩)
  | false =>
      rcases before with less | ⟨isNumber, _⟩
      · exact .inl (.inr ⟨(Ordered.isNumber_of_lt less).1, rfl⟩)
      · exact .inl (.inr ⟨isNumber, rfl⟩)

theorem precedes_trans (first : precedes left middle = true)
    (second : precedes middle right = true) : precedes left right = true := by
  rcases precedes_or_precedes right first with before | after
  · exact before
  · rw [precedes_asymm second] at after
    cases after

/-- What is no number comes before nothing. -/
theorem isNumber_of_precedes (before : precedes left right = true) : isNumber left = true := by
  rcases precedes_iff.mp before with less | ⟨number, -⟩
  · exact (Ordered.isNumber_of_lt less).1
  · exact number

/-- Two values of which neither comes before the other are equal, or both are no numbers. -/
theorem eq_or_of_not_precedes (notBefore : precedes left right = false)
    (notAfter : precedes right left = false) :
    eq left right = true ∨ isNumber left = false ∧ isNumber right = false := by
  simp only [precedes, Bool.or_eq_false_iff, Bool.and_eq_false_iff,
    Bool.not_eq_false'] at notBefore notAfter
  cases leftNumber : isNumber left with
  | true =>
      have rightNumber : isNumber right = true := by simpa [leftNumber] using notBefore.2
      exact .inl (Ordered.eq_iff.mpr ⟨leftNumber, rightNumber, notBefore.1, notAfter.1⟩)
  | false =>
      have rightNotNumber : isNumber right = false := by simpa [leftNumber] using notAfter.2
      exact .inr ⟨rfl, rightNotNumber⟩

/-- Equal values come before and after the same ones. -/
theorem not_precedes_of_eq (same : eq left right = true) : precedes left right = false := by
  obtain ⟨leftNumber, rightNumber, notLess, -⟩ := Ordered.eq_iff.mp same
  simp [precedes, notLess, rightNumber]

end Precedes

end DecisionTree.Scalar
