/-!
# Values by key, in the order of first use

An association list keeps its keys in the order in which they were first given a value.
Giving a key another value keeps its place.  When keys count as equal is a parameter.
-/

namespace DecisionTree.Association

variable {κ β : Type}

/-- Gives a key a value: at its place if it is there, else at the end. -/
def put (same : κ → κ → Bool) (key : κ) (value : β) : List (κ × β) → List (κ × β)
  | [] => [(key, value)]
  | (first, old) :: rest =>
      if same first key then (first, value) :: rest else (first, old) :: put same key value rest

/-- The values that pairs give to their keys, one pair after the other. -/
def ofPairs (same : κ → κ → Bool) (pairs : List (κ × β)) : List (κ × β) :=
  pairs.foldl (fun values (key, value) => put same key value values) []

/-- The keys afterwards: the same ones if the key was there, else one more. -/
theorem keys_put (same : κ → κ → Bool) (key : κ) (value : β) (pairs : List (κ × β)) :
    (put same key value pairs).map Prod.fst =
      if pairs.any fun pair => same pair.1 key then pairs.map Prod.fst
      else pairs.map Prod.fst ++ [key] := by
  induction pairs with
  | nil => simp [put]
  | cons pair rest ih =>
      obtain ⟨first, old⟩ := pair
      by_cases found : same first key
      · simp [put, found]
      · simp only [put, found, Bool.false_eq_true, if_false, List.map_cons, ih, List.any_cons,
          Bool.false_or]
        split <;> simp

end DecisionTree.Association
