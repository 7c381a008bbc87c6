import DecisionTree.LabelTable
import DecisionTree.Proofs.Binary64.Order
import DecisionTree.Proofs.Order
import DecisionTree.Proofs.Outcome

/-!
# Labels in one array and in a table

Which kind of array holds a list of labels is told by the kinds of labels that occur in it
(`Atom.kindOf_eq`).  Some labels are not equal to what they become in the array
(`Atom.equal_toKind`): numbers become texts where there is a text, large integers lose digits where
there is a float or where some integers have no sign and others have one, and texts lose a NUL at
their end.  None of this happens to the labels of a table that was made from labels whose integers
all fit into 64 bits with a sign (`LabelTable.keptIn_of_occurrences`).
-/

namespace DecisionTree

namespace Atom

variable {labels : List Label} {label : Label}

/-! ## The kind of an array -/

/-- A value that no array of one kind holds: a null, or an integer beyond 64 bits. -/
def isUnheld : Atom → Bool
  | .null => true
  | .int value => value < -0x8000000000000000 || 0x10000000000000000 ≤ value
  | _ => false

/-- An integer of 64 bits with a sign. -/
def isSigned : Atom → Bool
  | .int value => -0x8000000000000000 ≤ value && value < 0x8000000000000000
  | _ => false

/-- An integer that only fits into 64 bits without a sign. -/
def isUnsigned : Atom → Bool
  | .int value => 0x8000000000000000 ≤ value && value < 0x10000000000000000
  | _ => false

def isFloat : Atom → Bool
  | .float _ => true
  | _ => false

/-- The kind of a label says which of the tests it passes. -/
theorem tests_eq (label : Label) :
    label.isUnheld = decide (label.kind = .mixed) ∧ label.isText = decide (label.kind = .text) ∧
      label.isFloat = decide (label.kind = .float) ∧
      label.isUnsigned = decide (label.kind = .unsigned) ∧
      label.isSigned = decide (label.kind = .signed) := by
  cases label with
  | null | bool | float | text => exact ⟨rfl, rfl, rfl, rfl, rfl⟩
  | int value =>
      simp only [isUnheld, isText, isFloat, isUnsigned, isSigned, kind]
      split
      next outside => simp [outside]; omega
      next inside =>
      split
      next low => simp; omega
      next high => simp; omega

/-- The kind of the array of a list of labels, by the labels that occur in the list. -/
theorem kindOf_eq (labels : List Label) :
    kindOf labels =
      if labels.any isUnheld then .mixed
      else if labels.any isText then .text
      else if labels.any isFloat || (labels.any isSigned && labels.any isUnsigned) then .float
      else if labels.any isUnsigned then .unsigned
      else if labels.any isSigned then .signed
      else .truth := by
  induction labels with
  | nil => rfl
  | cons label rest ih =>
      obtain ⟨unheld, text, float, unsigned, signed⟩ := tests_eq label
      have step : kindOf (label :: rest) = label.kind.join (kindOf rest) := rfl
      rw [step, ih]
      simp only [List.any_cons, unheld, text, float, unsigned, signed]
      -- Only the kind of the first label and the tests of the others matter.
      generalize label.kind = first, rest.any isUnheld = unheld, rest.any isText = text,
        rest.any isFloat = float, rest.any isSigned = signed, rest.any isUnsigned = unsigned
      cases first <;> cases unheld <;> cases text <;> cases float <;> cases signed <;>
        cases unsigned <;> rfl

example : kindOf [.int 0x8000000000000001, .int (-1)] = .float := by decide

example : kindOf [.int 0x10000000000000000, .text "a"] = .mixed := by decide

/-! ## Labels that an array keeps -/

/-- A label of a list is equal to what becomes of it in an array of the list.  Integers become
floats beside floats, and if some take a sign and others leave no room for one. -/
def KeptIn (labels : List Label) : Label → Prop
  | .null => True
  | .bool _ => labels.any isUnheld = true ∨ labels.any isText = false
  | .int value => labels.any isUnheld = true ∨ labels.any isText = false ∧
      (labels.any isFloat = true ∨ labels.any isSigned = true ∧ labels.any isUnsigned = true →
        (Binary64.ofFloat (Decimal.floatOfInt value)).toInt? = some value)
  | .float value => Scalar.isNumber value = true ∧
      (labels.any isUnheld = true ∨ labels.any isText = false)
  | .text value => labels.any isUnheld = true ∨ value.toList.getLast? ≠ some '\x00'

/-- A text stays the same in an array exactly if it does not end with a NUL. -/
theorem toText_text_eq {value : String} :
    toText (.text value) = .text value ↔ value.toList.getLast? ≠ some '\x00' := by
  have same : toText (.text value) = .text value ↔
      (value.toList.reverse.dropWhile (· == '\x00')) = value.toList.reverse := by
    rw [toText, plain, Atom.text.injEq]
    rw [← String.toList_inj, String.toList_ofList, List.reverse_eq_iff]
  rw [same, List.getLast?_eq_head?_reverse]
  cases value.toList.reverse with
  | nil => simp
  | cons last others =>
      rw [List.head?_cons, ne_eq, Option.some.injEq, List.dropWhile_cons]
      by_cases filler : last = '\x00'
      · simp only [filler, beq_self_eq_true, if_true, not_true_eq_false, iff_false]
        intro shorter
        have := congrArg List.length shorter
        have := (List.dropWhile_sublist (· == '\x00') (l := others)).length_le
        simp at *
        omega
      · simp [filler]

/-- A truth value as a float is the integer that it counts as. -/
theorem toInt?_ofTruth (value : Bool) :
    (Binary64.ofFloat (Decimal.floatOfInt (ofTruth value))).toInt? = some (ofTruth value) := by
  cases value <;> decide +kernel

theorem equal_text_iff {other : Label} {value : String} :
    other.equal (.text value) = true ↔ other = .text value := by
  cases other <;> simp [equal, integer?]

/-- A label is equal to itself unless it is a float that is not a number. -/
theorem equal_self_iff :
    label.equal label = true ↔ ∀ value, label = .float value → Scalar.isNumber value = true := by
  cases label <;> simp [equal, integer?, Scalar.isNumber, Scalar.eq]

/-- What becomes of a label of a list in an array is equal to the label exactly if the label is
kept. -/
theorem equal_toKind (member : label ∈ labels) :
    (toKind (kindOf labels) label).equal label = true ↔ label.KeptIn labels := by
  have absent : ∀ {test : Label → Bool}, ¬ labels.any test = true → test label ≠ true :=
    fun none passed => none (List.any_eq_true.mpr ⟨label, member, passed⟩)
  rw [kindOf_eq]
  split
  next unheld =>
    rw [toKind, equal_self_iff]
    cases label <;> simp [KeptIn, unheld]
  next held =>
  split
  next text =>
    cases label with
    | null => exact absurd rfl (absent held)
    | bool value => simp [KeptIn, held, text, equal, integer?, toKind, toText]
    | int value => simp [KeptIn, held, text, equal, integer?, toKind, toText]
    | float value => simp [KeptIn, held, text, equal, integer?, toKind, toText]
    | text value => rw [KeptIn, or_iff_right held, toKind, equal_text_iff, toText_text_eq]
  next noText =>
  have isNoText := absent noText
  rw [Bool.not_eq_true] at held noText
  split
  next floats =>
    rw [Bool.or_eq_true, Bool.and_eq_true] at floats
    cases label with
    | null => simp [KeptIn, equal, toKind, toFloat]
    | bool value => simp [KeptIn, noText, equal, integer?, toKind, toFloat, toInt?_ofTruth]
    | int value =>
        rw [KeptIn, held, noText, or_iff_right Bool.false_ne_true, and_iff_right rfl,
          imp_iff_right floats]
        simp [equal, integer?, toKind, toFloat]
    | float value => simp [KeptIn, noText, equal, toKind, toFloat, Scalar.isNumber, Scalar.eq]
    | text value => exact absurd rfl isNoText
  next noFloats =>
  have keptInt (value : Int) : (Atom.int value).KeptIn labels := by
    refine .inr ⟨noText, fun floats => absurd ?_ noFloats⟩
    rwa [Bool.or_eq_true, Bool.and_eq_true]
  have integers (label : Label) (isNoText : label.isText ≠ true) :
      (toInt label).equal label = true ↔ label.KeptIn labels := by
    cases label with
    | null => simp [KeptIn, equal, toInt]
    | bool value => simp [KeptIn, noText, equal, integer?, toInt]
    | int value => simp [keptInt, equal, integer?, toInt]
    | float value => simp [KeptIn, noText, equal, toInt, Scalar.isNumber, Scalar.eq]
    | text value => exact absurd rfl isNoText
  split
  next => exact integers label isNoText
  next =>
  split
  next => exact integers label isNoText
  next =>
    rw [toKind, equal_self_iff]
    cases label with
    | int value => simp [keptInt]
    | text value => exact absurd rfl isNoText
    | null | bool | float => simp [KeptIn, noText]

/-- A list with a null is left as it is. -/
theorem uniform_of_null (null : labels.any isNull = true) : uniform labels = labels := by
  obtain ⟨blank, member, isBlank⟩ := List.any_eq_true.mp null
  have unheld : labels.any isUnheld = true := by
    refine List.any_eq_true.mpr ⟨blank, member, ?_⟩
    cases blank with
    | null => rfl
    | bool | int | float | text => cases isBlank
  rw [uniform, kindOf_eq, if_pos unheld]
  exact List.map_id labels

/-- Labels with a null among them cannot be compared. -/
theorem not_comparable_of_null (null : labels.any isNull = true) : comparable labels = false := by
  obtain ⟨blank, member, isBlank⟩ := List.any_eq_true.mp null
  cases blank with
  | null =>
      rw [comparable, Bool.or_eq_false_iff, Bool.not_eq_false']
      exact ⟨List.all_eq_false.mpr ⟨_, member, Bool.false_ne_true⟩,
        List.any_eq_true.mpr ⟨_, member, rfl⟩⟩
  | bool | int | float | text => cases isBlank

/-- A label in an array is a text that does not end with a NUL, if it is a text at all. -/
theorem exists_toText (label : Label) :
    ∃ text : String, toText label = .text text ∧ text.toList.getLast? ≠ some '\x00' := by
  refine ⟨_, rfl, fun filler => ?_⟩
  rw [String.toList_ofList, List.getLast?_reverse] at filler
  have kept := List.head?_dropWhile_not (· == '\x00') label.plain.toList.reverse
  rw [filler] at kept
  cases kept

/-! ## Labels that fit into 64 bits with a sign -/

/-- A label is no integer beyond 64 bits with a sign. -/
def Narrow : Label → Prop
  | .int value => -0x8000000000000000 ≤ value ∧ value < 0x8000000000000000
  | _ => True

theorem Narrow.held (narrow : label.Narrow) (notNull : label.isNull ≠ true) :
    label.isUnheld = false := by
  cases label with
  | null => exact absurd rfl notNull
  | int value =>
      simp only [isUnheld, Bool.or_eq_false_iff, decide_eq_false_iff_not, Narrow] at *
      omega
  | bool | float | text => rfl

theorem Narrow.hasSign (narrow : label.Narrow) : label.isUnsigned = false := by
  cases label with
  | int value =>
      simp only [isUnsigned, Bool.and_eq_false_iff, decide_eq_false_iff_not, Narrow] at *
      omega
  | null | bool | float | text => rfl

/-- The kind of the array of narrow labels without a null. -/
theorem kindOf_of_narrow (noNull : ¬ labels.any isNull = true)
    (narrow : ∀ label ∈ labels, label.Narrow) :
    kindOf labels =
      if labels.any isText then .text
      else if labels.any isFloat then .float
      else if labels.any isSigned then .signed
      else .truth := by
  have held : labels.any isUnheld = false := by
    refine List.any_eq_false.mpr fun label member => ?_
    have notNull := fun null => noNull (List.any_eq_true.mpr ⟨label, member, null⟩)
    simp [(narrow label member).held notNull]
  have hasSign : labels.any isUnsigned = false :=
    List.any_eq_false.mpr fun label member => by simp [(narrow label member).hasSign]
  simp [kindOf_eq, held, hasSign]

/-- Narrow labels without a null have one kind in an array: they are texts that do not end with a
NUL, or floats, or narrow integers, or truth values. -/
theorem uniform_cases (noNull : ¬ labels.any isNull = true)
    (narrow : ∀ label ∈ labels, label.Narrow) :
    (∀ label ∈ uniform labels, ∃ value : String,
      label = .text value ∧ value.toList.getLast? ≠ some '\x00') ∨
    (∀ label ∈ uniform labels, ∃ value, label = .float value) ∨
    (∀ label ∈ uniform labels, ∃ value, label = .int value ∧ label.Narrow) ∨
    ∀ label ∈ uniform labels, ∃ value, label = .bool value := by
  have absent : ∀ {test : Label → Bool}, ¬ labels.any test = true → ∀ label ∈ labels,
      test label ≠ true :=
    fun none label member passed => none (List.any_eq_true.mpr ⟨label, member, passed⟩)
  have notNull := absent noNull
  rw [uniform, kindOf_of_narrow noNull narrow]
  split
  next => exact .inl (List.forall_mem_map.mpr fun label _ => exists_toText label)
  next noText =>
  have notText := absent noText
  split
  next =>
    refine .inr (.inl (List.forall_mem_map.mpr fun label member => ?_))
    cases label with
    | bool | int | float => exact ⟨_, rfl⟩
    | null => exact absurd rfl (notNull _ member)
    | text => exact absurd rfl (notText _ member)
  next noFloat =>
  have notFloat := absent noFloat
  split
  next =>
    refine .inr (.inr (.inl (List.forall_mem_map.mpr fun label member => ?_)))
    cases label with
    | bool value => exact ⟨_, rfl, by cases value <;> simp [toKind, toInt, ofTruth, Narrow]⟩
    | int => exact ⟨_, rfl, narrow _ member⟩
    | null => exact absurd rfl (notNull _ member)
    | float => exact absurd rfl (notFloat _ member)
    | text => exact absurd rfl (notText _ member)
  next noInt =>
    refine .inr (.inr (.inr (List.forall_mem_map.mpr fun label member => ?_)))
    cases label with
    | bool => exact ⟨_, rfl⟩
    | null => exact absurd rfl (notNull _ member)
    | int value =>
        have bounds : (Atom.int value).isSigned = true := by
          simpa [isSigned, Narrow] using narrow _ member
        exact absurd bounds (absent noInt _ member)
    | float => exact absurd rfl (notFloat _ member)
    | text => exact absurd rfl (notText _ member)

/-- What a float is equal to is a number. -/
theorem isNumber_of_equal {left right : Float}
    (same : (Atom.float left).equal (.float right) = true) : Scalar.isNumber right = true := by
  have equal : Scalar.eq left right = true := same
  exact (Scalar.Ordered.eq_iff.mp equal).2.1

theorem mem_of_mem_dropRepeats (member : label ∈ dropRepeats labels) : label ∈ labels := by
  induction labels with
  | nil => cases member
  | cons first rest ih =>
      rw [dropRepeats] at member
      split at member
      next => exact List.mem_cons.mpr (.inl (List.mem_singleton.mp member))
      next second others dropped =>
        rw [dropped] at ih
        split at member
        next =>
          rcases List.mem_cons.mp member with rfl | later
          · exact List.mem_cons_self
          · exact List.mem_cons_of_mem _ (ih (List.mem_cons_of_mem _ later))
        next =>
          rcases List.mem_cons.mp member with rfl | later
          · exact List.mem_cons_self
          · exact List.mem_cons_of_mem _ (ih later)

end Atom

namespace LabelTable

open Atom

variable {table : LabelTable} {line : List Label}

/-- A table of the labels that occur lists them as they are in an array.  A null occurs alone. -/
theorem of_occurrences (made : ofOccurrences line = .ok table) :
    (line.any isNull = true → line.length ≤ 1) ∧ ∀ label ∈ table.labels, label ∈ uniform line := by
  obtain ⟨labels, distinctEq, made⟩ := Outcome.bind_eq_ok.mp made
  unfold Atom.distinct at distinctEq
  dsimp only at distinctEq
  split at distinctEq
  next sortable =>
    obtain rfl := Except.ok.inj distinctEq
    unfold ofLabels at made
    split at made
    next =>
      obtain rfl := Except.ok.inj made
      refine ⟨fun null => ?_, fun label member => ?_⟩
      · rw [uniform_of_null null, not_comparable_of_null null, Bool.or_false,
          decide_eq_true_eq] at sortable
        exact sortable
      · exact (Sorting.perm_sort _ _).mem_iff.mp (mem_of_mem_dropRepeats member)
    next => cases made
  next => cases distinctEq

/-- Labels with ids are equal to labels of the table. -/
theorem exists_equal {labels : List Label} {ids : List Nat} (found : table.idsOf labels = .ok ids)
    {label : Label} (member : label ∈ labels) :
    ∃ other ∈ table.labels, other.equal label = true := by
  obtain ⟨id, -, known⟩ := Outcome.mem_of_mapM found member
  split at known
  next place isPlace =>
    obtain ⟨inside, same, -⟩ := List.findIdx?_eq_some_iff_getElem.mp isPlace
    exact ⟨_, List.getElem_mem inside, same⟩
  next => cases known

/-- All labels of a table that was made from narrow labels, and in which these are found, are kept
in an array. -/
theorem keptIn_of_occurrences (made : ofOccurrences line = .ok table) {ids : List Nat}
    (found : table.idsOf (uniform line) = .ok ids) (narrow : ∀ label ∈ line, label.Narrow) :
    ∀ label ∈ table.labels, label.KeptIn table.labels := by
  obtain ⟨alone, listed⟩ := of_occurrences made
  intro label member
  have inArray := listed label member
  by_cases null : line.any isNull = true
  · obtain ⟨blank, isBlank, blankNull⟩ := List.any_eq_true.mp null
    have single : line.length = 1 := by
      have := List.length_pos_of_mem isBlank
      have := alone null
      omega
    obtain ⟨only, rfl⟩ := List.length_eq_one_iff.mp single
    obtain rfl := List.mem_singleton.mp isBlank
    cases blank with
    | null =>
        obtain rfl := List.mem_singleton.mp inArray
        trivial
    | bool | int | float | text => cases blankNull
  have noneOf : ∀ test : Label → Bool, (∀ other ∈ uniform line, test other = false) →
      table.labels.any test = false := by
    intro test none
    refine List.any_eq_false.mpr fun other isOther => ?_
    rw [none other (listed other isOther)]
    exact Bool.false_ne_true
  rcases uniform_cases null narrow with texts | floats | ints | bools
  · obtain ⟨value, rfl, proper⟩ := texts label inArray
    exact .inr proper
  · obtain ⟨other, isOther, same⟩ := exists_equal found inArray
    obtain ⟨value, rfl⟩ := floats label inArray
    obtain ⟨otherValue, rfl⟩ := floats other (listed other isOther)
    refine ⟨isNumber_of_equal same, .inr (noneOf isText fun other isLabel => ?_)⟩
    obtain ⟨value, rfl⟩ := floats other isLabel
    rfl
  · obtain ⟨value, rfl, -⟩ := ints label inArray
    have noText := noneOf isText fun other isLabel => by
      obtain ⟨value, rfl, -⟩ := ints other isLabel
      rfl
    have noFloat := noneOf isFloat fun other isLabel => by
      obtain ⟨value, rfl, -⟩ := ints other isLabel
      rfl
    have noUnsigned := noneOf isUnsigned fun other isLabel => by
      obtain ⟨value, rfl, -, small⟩ := ints other isLabel
      simp [isUnsigned, Int.not_le.mpr small]
    refine .inr ⟨noText, fun floats => ?_⟩
    rw [noFloat, noUnsigned] at floats
    simp at floats
  · obtain ⟨value, rfl⟩ := bools label inArray
    refine .inr (noneOf isText fun other isLabel => ?_)
    obtain ⟨value, rfl⟩ := bools other isLabel
    rfl

end LabelTable

end DecisionTree
