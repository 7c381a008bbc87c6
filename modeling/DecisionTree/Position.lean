/-!
# Positions that may count from the end

A position in a sequence of length `n` is an integer: from `0` to `n - 1` it
counts from the front, from `-1` down to `-n` from the back.  Any other integer
names no element.
-/

namespace DecisionTree.Position

/-- The place in a sequence of the given length that an integer names. -/
def resolve (length : Nat) (position : Int) : Option Nat :=
  if 0 ≤ position then
    if position < length then some position.toNat else none
  else
    if 0 ≤ position + length then some (position + length).toNat else none

theorem resolve_lt {length : Nat} {position : Int} {place : Nat}
    (named : resolve length position = some place) : place < length := by
  unfold resolve at named
  split at named <;> split at named <;> simp_all <;> omega

theorem resolve_ofNat {length place : Nat} (inBounds : place < length) :
    resolve length place = some place := by
  simp [resolve, inBounds]

/-- An integer names no place if it lies beyond either end. -/
theorem resolve_eq_none {length : Nat} {position : Int} :
    resolve length position = none ↔ position < -length ∨ length ≤ position := by
  unfold resolve
  split <;> split <;> simp <;> omega

/-- The element at a position. -/
def get? {α : Type} (values : List α) (position : Int) : Option α :=
  (resolve values.length position).bind (values[·]?)

theorem get?_ofNat {α : Type} (values : List α) (place : Nat) :
    get? values place = values[place]? := by
  unfold get?
  by_cases inside : place < values.length
  · rw [resolve_ofNat inside, Option.bind_some]
  · have outside : resolve values.length (place : Int) = none := by
      simp [resolve, inside]
    rw [outside, Option.bind_none, List.getElem?_eq_none (Nat.le_of_not_lt inside)]

/-- The elements before a position; a position beyond either end is that end. -/
def before {α : Type} (values : List α) (position : Int) : List α :=
  values.take (if 0 ≤ position then position else position + values.length).toNat

theorem before_ofNat {α : Type} (values : List α) (place : Nat) :
    before values place = values.take place := by
  simp [before]

end DecisionTree.Position
