import DecisionTree.Buffer.Basic
import DecisionTree.Error

/-!
# Merging ascending ids

Two ascending lists without a common element are merged into a buffer by writing
each element at its final place: its place in its own list plus the number of
elements of the other list before it.  That number is found by bisection, which
starts where the search for the previous element ended.
-/

namespace DecisionTree

namespace Bisection

/-- The first place in `[low, high)` whose value is not below the key, if the values
ascend; `high` if there is none. -/
def lowerBound (values : Array Int) (key : Int) (low high : Nat) : Nat :=
  if low < high then
    let middle := low + (high - low) / 2
    if values.getD middle 0 < key then lowerBound values key (middle + 1) high
    else lowerBound values key low middle
  else
    low
termination_by high - low
decreasing_by all_goals omega

/-- The lower bounds of keys one after the other.  After a smaller key the search goes
on upwards from its place; otherwise it goes downwards from just behind it. -/
def lowerBoundsFrom (values : Array Int) (previous : Int) (place : Nat) : List Int → List Nat
  | [] => []
  | key :: rest =>
      let found :=
        if previous < key then lowerBound values key place values.size
        else lowerBound values key 0 (min (place + 1) values.size)
      found :: lowerBoundsFrom values key found rest

/-- The lower bound of each key. -/
def lowerBounds (values : Array Int) : List Int → List Nat
  | [] => []
  | key :: rest => lowerBoundsFrom values key values.size (key :: rest)

end Bisection

namespace Buffer

/-- The final places of `ids` when they are merged with `others`. -/
def places (ids others : List Int) : List Nat :=
  (Bisection.lowerBounds others.toArray ids).zipIdx.map fun (found, place) => found + place

/-- Merges the content of a buffer with further ids into another buffer. -/
def mergeInto (buffer : Buffer) (ids : List Int) (out : Buffer) : Buffer :=
  let left := buffer.view
  let count := left.length + ids.length
  let written := (out.grow count).writeAll ((places left ids).zip left)
  { written.writeAll ((places ids left).zip ids) with size := count }

/-- Merges two buffers among named ones into a third, which has to differ from the
first. -/
def merge? {ν : Type} [DecidableEq ν] (first out : ν) (buffer : Buffer) (ids : List Int)
    (target : Buffer) : Except Error Buffer :=
  if out = first then .error .mergeIntoInput else .ok (buffer.mergeInto ids target)

end Buffer

end DecisionTree
