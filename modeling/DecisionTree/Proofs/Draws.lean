import DecisionTree.Draws.Twister

/-!
# Draws stay below their bounds

`Draws.Bounded` is what growth relies on when it uses drawn numbers as positions.  The twister
keeps to it (`Twister.draws_bounded`), and so does a source of zeros.
-/

namespace DecisionTree

/-- Every number drawn below a positive bound is a natural number below it. -/
def Draws.Bounded {σ : Type} (draws : Draws σ) : Prop :=
  ∀ (bound : Nat) (state : σ), 0 < bound →
    0 ≤ (draws.below bound state).1 ∧ (draws.below bound state).1 < bound

theorem Draws.bounded_zeros : (Draws.repeating []).Bounded := by
  intro bound count positive
  constructor
  · exact Int.le_refl 0
  · exact Int.natCast_pos.mpr positive

namespace Twister

theorem drawUpTo_le (maximum tries : Nat) (twister : Twister) :
    (drawUpTo maximum tries twister).1 ≤ maximum := by
  induction tries generalizing twister with
  | zero => exact Nat.zero_le _
  | succ tries ih =>
      simp only [drawUpTo]
      split
      · assumption
      · exact ih _

theorem below_lt {bound : Nat} (positive : 0 < bound) (twister : Twister) :
    (twister.below bound).1 < bound := by
  unfold below
  split
  · exact positive
  next large =>
    have := drawUpTo_le (bound - 1) maximalTries twister
    omega

/-- The twister draws below its bounds. -/
theorem draws_bounded : draws.Bounded := by
  intro bound twister positive
  have := below_lt positive twister
  simp only [draws]
  omega

end Twister

end DecisionTree
