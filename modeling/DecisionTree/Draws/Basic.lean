/-!
# Sources of random numbers

Growth draws from a source: a state together with one primitive, a number below a
bound.  All else is derived from it, a permutation by exchanging each place, from
the last one down, with a drawn place not after it.
-/

namespace DecisionTree

/-- How to draw from states of type `σ`. -/
structure Draws (σ : Type) where
  /-- The state that a seed determines. -/
  seeded : Nat → σ
  /-- A number from zero up to but not including a bound. -/
  below : Nat → σ → Int × σ

namespace Draws

variable {σ : Type}

/-- The number of seeds that a source for one node is drawn from: the largest signed
32-bit integer. -/
def seedBound : Nat := 0x7fffffff

/-- Draws a place for each of the places `count … 1` and exchanges the two. -/
def exchange (draws : Draws σ) : Nat → Array Nat → σ → Array Nat × σ
  | 0, places, state => (places, state)
  | count + 1, places, state =>
      let (place, state) := draws.below (count + 2) state
      draws.exchange count (places.swapIfInBounds (count + 1) place.toNat) state

/-- The numbers below a bound in a random order. -/
def permutation (draws : Draws σ) (bound : Nat) (state : σ) : List Nat × σ :=
  let (places, state) := draws.exchange (bound - 1) (Array.range bound) state
  (places.toList, state)

theorem perm_exchange (draws : Draws σ) (count : Nat) (places : Array Nat) (state : σ) :
    (draws.exchange count places state).1.Perm places := by
  induction count generalizing places state with
  | zero => exact .rfl
  | succ count ih =>
      simp only [exchange]
      refine (ih _ _).trans ?_
      unfold Array.swapIfInBounds
      split
      · split
        · exact Array.swap_perm _ _
        · exact .rfl
      · exact .rfl

/-- Whatever is drawn, a permutation holds every number below its bound once. -/
theorem perm_permutation (draws : Draws σ) (bound : Nat) (state : σ) :
    (draws.permutation bound state).1.Perm (List.range bound) := by
  have perm := (draws.perm_exchange (bound - 1) (Array.range bound) state).toList
  simpa [permutation] using perm

/-- A source of its own, seeded by a draw. -/
def fork (draws : Draws σ) (state : σ) : σ × σ :=
  let (seed, state) := draws.below seedBound state
  (draws.seeded seed.toNat, state)

/-- A source that also keeps the bounds it was asked for, in order. -/
def recorded (draws : Draws σ) : Draws (σ × List Nat) where
  seeded seed := (draws.seeded seed, [])
  below bound state :=
    let (value, next) := draws.below bound state.1
    (value, next, state.2 ++ [bound])

/-- A source that repeats given numbers in turn, whatever the bound; its state is
the number of draws so far.  Without numbers it gives zero. -/
def repeating (values : List Int) : Draws Nat where
  seeded _ := 0
  below _ count := (values.getD (count % values.length) 0, count + 1)

end Draws

end DecisionTree
