import DecisionTree.Proofs.Column.Description
import Mathlib.Algebra.BigOperators.Group.Multiset.Basic
import Mathlib.Tactic.Abel

/-!
# Sums in whatever order

The sum of floats depends on the order of the additions, and the same weights are added in
different orders in the course of growth: example by example, value by value and in blocks.
`Sums` says that a value is a sum of terms in some order.  Every sum of a list is
(`Sums.of_list`), and the places of the histogram of a column share out the weights of its examples
between them (`Column.Describes.addsUp`).
-/

namespace DecisionTree

variable {α : Type} [Scalar α]

/-- A sum of terms that are added in some order and grouping. -/
inductive Sums : Multiset α → α → Prop
  | zero : Sums 0 0
  | term (value : α) : Sums {value} value
  | add {terms others : Multiset α} {total rest : α} (left : Sums terms total)
      (right : Sums others rest) : Sums (terms + others) (total + rest)

namespace Sums

variable {terms : Multiset α} {total : α}

/-- Terms that are added from the left. -/
theorem foldl (sums : Sums terms total) (values : List α) :
    Sums (terms + (values : Multiset α)) (values.foldl (· + ·) total) := by
  induction values generalizing terms total with
  | nil => simpa using sums
  | cons value rest ih =>
      rw [List.foldl_cons, ← Multiset.cons_coe, ← Multiset.singleton_add, ← add_assoc]
      exact ih (sums.add (.term value))

/-- Terms that are added to eight sums in turn. -/
theorem sumEights {a b c d e f g h : α} {as bs cs ds es fs gs hs : Multiset α}
    (first : Sums as a) (second : Sums bs b) (third : Sums cs c) (fourth : Sums ds d)
    (fifth : Sums es e) (sixth : Sums fs f) (seventh : Sums gs g) (eighth : Sums hs h)
    (values : List α) :
    Sums (as + bs + cs + ds + es + fs + gs + hs + (values : Multiset α))
      (Scalar.sumEights a b c d e f g h values) := by
  fun_induction Scalar.sumEights a b c d e f g h values
    generalizing as bs cs ds es fs gs hs with
  | case1 a b c d e f g h a' b' c' d' e' f' g' h' rest ih =>
      have next := ih (first.add (.term a')) (second.add (.term b')) (third.add (.term c'))
        (fourth.add (.term d')) (fifth.add (.term e')) (sixth.add (.term f'))
        (seventh.add (.term g')) (eighth.add (.term h'))
      simp only [← Multiset.cons_coe, ← Multiset.singleton_add]
      convert next using 1
      abel
  | case2 a b c d e f g h rest =>
      have joined := ((first.add second).add (third.add fourth)).add
        ((fifth.add sixth).add (seventh.add eighth))
      have all := joined.foldl rest
      convert all using 2
      abel

theorem sumBlock (values : List α) : Sums (values : Multiset α) (Scalar.sumBlock values) := by
  fun_cases Scalar.sumBlock values with
  | case1 a b c d e f g h rest =>
      have eights := sumEights (.term a) (.term b) (.term c) (.term d) (.term e) (.term f)
        (.term g) (.term h) rest
      simp only [← Multiset.cons_coe, ← Multiset.singleton_add]
      convert eights using 1
      abel
  | case2 first rest =>
      rw [← Multiset.cons_coe, ← Multiset.singleton_add]
      exact (Sums.term first).foldl rest
  | case3 => exact .zero

theorem sumBlocks (values : List α) : Sums (values : Multiset α) (Scalar.sumBlocks values) := by
  fun_induction Scalar.sumBlocks values with
  | case1 values long leftIh rightIh =>
      have both := leftIh.add rightIh
      rwa [Multiset.coe_add, List.take_append_drop] at both
  | case2 values short => exact sumBlock values

/-- The sum of a list adds up its elements. -/
theorem of_list (values : List α) : Sums (values : Multiset α) (Scalar.sum values) := by
  have all := Sums.zero.add (sumBlocks values)
  rwa [zero_add] at all

/-- A sum of sums is a sum of all their terms. -/
theorem flatten {parts : Multiset (Multiset α)} (sums : Sums terms total)
    (summed : Multiset.Rel Sums parts terms) : Sums parts.sum total := by
  induction sums generalizing parts with
  | zero =>
      obtain rfl := Multiset.rel_zero_right.mp summed
      exact .zero
  | term value =>
      obtain ⟨part, rest, own, none, rfl⟩ := Multiset.rel_cons_right.mp summed
      obtain rfl := Multiset.rel_zero_right.mp none
      rw [Multiset.sum_cons, Multiset.sum_zero, add_zero]
      exact own
  | add left right leftIh rightIh =>
      obtain ⟨first, second, leftSummed, rightSummed, rfl⟩ := Multiset.rel_add_right.mp summed
      rw [Multiset.sum_add]
      exact (leftIh leftSummed).add (rightIh rightSummed)

end Sums

namespace Histogram

/-- The places of a histogram share out terms between them and add up each its own. -/
inductive AddsUp : Multiset α → List α → Prop
  | nil : AddsUp 0 []
  | cons {terms others : Multiset α} {count : α} {counts : List α} (first : Sums terms count)
      (rest : AddsUp others counts) : AddsUp (terms + others) (count :: counts)

namespace AddsUp

variable {terms others : Multiset α} {counts left right : List α}

theorem zero (size : Nat) : AddsUp 0 (Histogram.zero size : List α) := by
  induction size with
  | zero => exact .nil
  | succ size ih => exact .cons .zero ih

/-- One more weight goes to the place of its label. -/
theorem add (addsUp : AddsUp terms counts) {label : Nat} (known : label < counts.length)
    (weight : α) : AddsUp (terms + {weight}) (Histogram.add counts (label, weight)) := by
  induction addsUp generalizing label with
  | nil => exact absurd known (Nat.not_lt_zero label)
  | cons first rest ih =>
      cases label with
      | zero =>
          rw [add_right_comm]
          exact .cons (first.add (.term weight)) rest
      | succ label =>
          rw [add_assoc]
          exact .cons first (ih (Nat.lt_of_succ_lt_succ known))

theorem tally {size : Nat} {items : List (Nat × α)} (known : ∀ item ∈ items, item.1 < size) :
    AddsUp (items.map Prod.snd : Multiset α) (Histogram.tally size items) := by
  suffices ∀ {terms counts}, AddsUp terms counts → counts.length = size →
      AddsUp (terms + (items.map Prod.snd : Multiset α)) (items.foldl Histogram.add counts) by
    have all := this (zero size) (length_zero size)
    rwa [zero_add] at all
  induction items with
  | nil =>
      intro terms counts addsUp _
      simpa using addsUp
  | cons item rest ih =>
      intro terms counts addsUp length
      have next := ih (fun other member => known other (List.mem_cons_of_mem _ member))
        (addsUp.add (length ▸ known item List.mem_cons_self) item.2)
        ((length_add ..).trans length)
      rw [List.map_cons, ← Multiset.cons_coe, ← Multiset.singleton_add, ← add_assoc]
      exact next

theorem plus (first : AddsUp terms left) (second : AddsUp others right)
    (length : left.length = right.length) :
    AddsUp (terms + others) (Histogram.plus left right) := by
  induction first generalizing others right with
  | nil =>
      obtain rfl := List.eq_nil_of_length_eq_zero length.symm
      cases second
      exact .nil
  | cons own rest ih =>
      cases second with
      | nil => cases length
      | cons other more =>
          rw [add_add_add_comm]
          exact .cons (own.add other) (ih more (Nat.succ.inj length))

/-- Every place adds up some of the terms. -/
theorem exists_sums (addsUp : AddsUp terms counts) :
    ∀ count ∈ counts, ∃ part ≤ terms, Sums part count := by
  induction addsUp with
  | nil => exact fun _ member => nomatch member
  | cons first rest ih =>
      intro count member
      rcases List.mem_cons.mp member with rfl | later
      · exact ⟨_, Multiset.le_add_right .., first⟩
      · obtain ⟨part, included, sums⟩ := ih count later
        exact ⟨part, included.trans (Multiset.le_add_left ..), sums⟩

theorem exists_rel (addsUp : AddsUp terms counts) :
    ∃ parts, Multiset.Rel Sums parts (counts : Multiset α) ∧ parts.sum = terms := by
  induction addsUp with
  | nil => exact ⟨0, .zero, rfl⟩
  | cons first rest ih =>
      obtain ⟨parts, summed, rfl⟩ := ih
      exact ⟨_ ::ₘ parts, .cons first summed, Multiset.sum_cons ..⟩

/-- The total of a histogram is a sum of all its terms. -/
theorem sum (addsUp : AddsUp terms counts) : Sums terms (Scalar.sum counts) := by
  obtain ⟨parts, summed, rfl⟩ := addsUp.exists_rel
  exact (Sums.of_list counts).flatten summed

end AddsUp

end Histogram

/-- The weights of some examples. -/
def Targets.weightsOf (targets : Targets α) (indices : List Int) : Multiset α :=
  (indices.map fun index => (targets.labelled index).2 : Multiset α)

/-- The tally of known examples shares out their weights. -/
theorem Targets.Known.addsUp {targets : Targets α} {count : Nat} (known : targets.Known count)
    {indices : List Int} (inRange : Targets.InRange count indices) :
    Histogram.AddsUp (targets.weightsOf indices) (targets.tally indices) := by
  have labels : ∀ item ∈ indices.map targets.labelled, item.1 < targets.labelCount := by
    intro item member
    obtain ⟨index, isId, rfl⟩ := List.mem_map.mp member
    exact (known.knows inRange index isId).item?_eq.1
  have addsUp := Histogram.AddsUp.tally labels
  rwa [List.map_map] at addsUp

/-- The histogram of a column shares out the weights of its examples. -/
theorem Column.Describes.addsUp {targets : Targets α} {value : Int → α} {indices : List Int}
    {column : Column α} {count : Nat} (describes : column.Describes targets value indices)
    (known : targets.Known count) (inRange : Targets.InRange count indices) :
    Histogram.AddsUp (targets.weightsOf indices) column.counts := by
  have plus : ∀ (entries : List (Entry α)) {terms : Multiset α} {total : List α},
      (∀ entry ∈ entries, entry.Settled targets) →
      (∀ entry ∈ entries, Targets.InRange count entry.indices) →
      Histogram.AddsUp terms total → total.length = targets.labelCount →
      Histogram.AddsUp (terms + targets.weightsOf (entries.flatMap (·.indices)))
        (entries.foldl (fun total entry => Histogram.plus total entry.counts) total) := by
    intro entries
    induction entries with
    | nil =>
        intro terms total _ _ addsUp _
        simpa [Targets.weightsOf] using addsUp
    | cons entry rest ih =>
        intro terms total settled inRange addsUp length
        have own := (settled entry List.mem_cons_self).counted
        have next := ih (fun other member => settled other (List.mem_cons_of_mem _ member))
          (fun other member => inRange other (List.mem_cons_of_mem _ member))
          (addsUp.plus (known.addsUp (inRange entry List.mem_cons_self))
            (length.trans (Targets.length_tally ..).symm))
          (by rw [Histogram.length_plus, length, Targets.length_tally, Nat.min_self])
        rw [List.flatMap_cons, Targets.weightsOf, List.map_append, ← Multiset.coe_add, ← add_assoc,
          List.foldl_cons, own]
        exact next
  have members : ∀ entry ∈ column.entries, Targets.InRange count entry.indices :=
    fun entry member index isId =>
      inRange index (describes.mem_iff.mp ⟨entry, member, isId⟩)
  have all := plus column.entries describes.settled members
    (Histogram.AddsUp.zero targets.labelCount) (Histogram.length_zero _)
  have same : targets.weightsOf (column.entries.flatMap (·.indices)) =
      targets.weightsOf indices :=
    Multiset.coe_eq_coe.mpr (describes.perm.map _)
  rw [zero_add, same] at all
  rw [Column.counts, describes.targets_eq]
  exact all

end DecisionTree
