import DecisionTree.Error
import Mathlib.Data.List.Forall2

/-!
# Computations that may fail

A sequence of computations gives a result exactly if every part of it does.
-/

namespace DecisionTree.Outcome

variable {β γ : Type} {error : Error}

/-- The parts of a sequence that gives a result. -/
theorem bind_eq_ok {first : Except Error β} {next : β → Except Error γ} {result : γ} :
    (first >>= next) = .ok result ↔ ∃ value, first = .ok value ∧ next value = .ok result := by
  cases first with
  | error error =>
      constructor
      · intro success
        contradiction
      · rintro ⟨value, impossible, -⟩
        contradiction
  | ok value =>
      constructor
      · intro success
        exact ⟨value, rfl, success⟩
      · rintro ⟨other, same, success⟩
        obtain rfl := Except.ok.inj same
        exact success

/-- A sequence fails for a reason only if a part of it does. -/
theorem bind_ne_error {first : Except Error β} {next : β → Except Error γ}
    (firstNot : first ≠ .error error)
    (nextNot : ∀ value, first = .ok value → next value ≠ .error error) :
    (first >>= next) ≠ .error error := by
  cases first with
  | error other =>
      intro same
      exact firstNot (congrArg Except.error (Except.error.inj same))
  | ok value => exact nextNot value rfl

/-- Whether a computation gives a result that passes a test. -/
def passes (computation : Except Error β) (test : β → Bool) : Bool :=
  match computation with
  | .ok value => test value
  | .error _ => false

theorem exists_of_passes {computation : Except Error β} {test : β → Bool}
    (passed : passes computation test = true) :
    ∃ value, computation = .ok value ∧ test value = true := by
  cases computation with
  | error error => cases passed
  | ok value => exact ⟨value, rfl, passed⟩

/-- A computation over a list gives a result exactly if it does for every element. -/
theorem mapM_eq_ok {compute : β → Except Error γ} {values : List β} {results : List γ} :
    values.mapM compute = .ok results ↔
      List.Forall₂ (fun value result => compute value = .ok result) values results := by
  induction values generalizing results with
  | nil =>
      rw [List.mapM_nil, List.forall₂_nil_left_iff]
      constructor
      · intro success
        exact (Except.ok.inj success).symm
      · rintro rfl
        rfl
  | cons value rest ih =>
      rw [List.mapM_cons, bind_eq_ok]
      constructor
      · rintro ⟨result, first, success⟩
        obtain ⟨others, later, same⟩ := bind_eq_ok.mp success
        obtain rfl := Except.ok.inj same
        exact .cons first (ih.mp later)
      · intro all
        cases all with
        | cons first later => exact ⟨_, first, bind_eq_ok.mpr ⟨_, ih.mpr later, rfl⟩⟩

/-- Every result over a list comes from one of its elements. -/
theorem exists_of_mem_mapM {compute : β → Except Error γ} {values : List β} {results : List γ}
    (success : values.mapM compute = .ok results) :
    ∀ result ∈ results, ∃ value ∈ values, compute value = .ok result := by
  have pairs := mapM_eq_ok.mp success
  clear success
  induction pairs with
  | nil =>
      intro result member
      cases member
  | cons first later ih =>
      intro result member
      rcases List.mem_cons.mp member with rfl | member
      · exact ⟨_, List.mem_cons_self, first⟩
      · obtain ⟨value, valueMember, computed⟩ := ih result member
        exact ⟨value, List.mem_cons_of_mem _ valueMember, computed⟩

/-- Every element has its result. -/
theorem mem_of_mapM {compute : β → Except Error γ} {values : List β} {results : List γ}
    (success : values.mapM compute = .ok results) {value : β} (member : value ∈ values) :
    ∃ result ∈ results, compute value = .ok result := by
  have pairs := mapM_eq_ok.mp success
  clear success
  induction pairs with
  | nil => cases member
  | cons first later ih =>
      rcases List.mem_cons.mp member with rfl | member
      · exact ⟨_, List.mem_cons_self, first⟩
      · obtain ⟨result, resultMember, computed⟩ := ih member
        exact ⟨result, List.mem_cons_of_mem _ resultMember, computed⟩

/-- A relation of all pairs is handed on from the elements to their results. -/
theorem pairwise_of_mapM {before : β → β → Prop} {after : γ → γ → Prop}
    {compute : β → Except Error γ} {values : List β} {results : List γ}
    (success : values.mapM compute = .ok results) (related : values.Pairwise before)
    (handedOn : ∀ value other result another, before value other →
      compute value = .ok result → compute other = .ok another → after result another) :
    results.Pairwise after := by
  induction values generalizing results with
  | nil =>
      cases mapM_eq_ok.mp success
      exact .nil
  | cons value rest ih =>
      obtain ⟨fromFirst, fromRest⟩ := List.pairwise_cons.mp related
      cases mapM_eq_ok.mp success with
      | cons first later =>
          have others := mapM_eq_ok.mpr later
          refine .cons (fun result member => ?_) (ih others fromRest)
          obtain ⟨other, otherMember, computed⟩ := exists_of_mem_mapM others result member
          exact handedOn _ _ _ _ (fromFirst other otherMember) first computed

/-- If the result for every element is known, so is that for a list of them. -/
theorem mapM_eq_map {compute : β → Except Error γ} {result : β → γ} {values : List β}
    (all : ∀ value ∈ values, compute value = .ok (result value)) :
    values.mapM compute = .ok (values.map result) := by
  rw [mapM_eq_ok, List.forall₂_map_right_iff, List.forall₂_same]
  exact all

/-- If a computation gives a result for every element, it does so for a list of them. -/
theorem exists_mapM_eq_ok {compute : β → Except Error γ} {values : List β}
    (all : ∀ value ∈ values, ∃ result, compute value = .ok result) :
    ∃ results, values.mapM compute = .ok results := by
  induction values with
  | nil => exact ⟨[], rfl⟩
  | cons value rest ih =>
      obtain ⟨result, first⟩ := all value List.mem_cons_self
      obtain ⟨results, others⟩ := ih fun other member => all other (List.mem_cons_of_mem _ member)
      exact ⟨result :: results, mapM_eq_ok.mpr (.cons first (mapM_eq_ok.mp others))⟩

/-- A search over a list finds results exactly if it finds each of them for its element. -/
theorem mapM_eq_some {find : β → Option γ} {values : List β} {results : List γ} :
    values.mapM find = some results ↔ values.map find = results.map some := by
  induction values generalizing results with
  | nil => cases results <;> simp
  | cons value rest ih =>
      rw [List.mapM_cons]
      cases found : find value with
      | none => cases results <;> simp [found]
      | some first =>
          cases results with
          | nil => simp [found, Option.bind_eq_some_iff]
          | cons result others => simp [found, ih, Option.bind_eq_some_iff, and_comm]

/-- If what is found for every element is known, so is what is found for a list of them. -/
theorem mapM_eq_some_map {find : β → Option γ} {result : β → γ} {values : List β}
    (all : ∀ value ∈ values, find value = some (result value)) :
    values.mapM find = some (values.map result) := by
  rw [mapM_eq_some, List.map_map]
  exact List.map_congr_left all

/-- A search over a list fails exactly if it fails for an element. -/
theorem mapM_eq_none {find : β → Option γ} {values : List β} :
    values.mapM find = none ↔ ∃ value ∈ values, find value = none := by
  induction values with
  | nil => simp
  | cons value rest ih =>
      rw [List.mapM_cons]
      cases found : find value with
      | none => simp [found]
      | some first =>
          simp only [List.mem_cons, exists_eq_or_imp, found, reduceCtorEq, false_or, ← ih]
          cases rest.mapM find <;> simp

/-- If every round of a loop gives a result and keeps an invariant, so does the loop. -/
theorem exists_foldlM_eq_ok {advance : β → γ → Except Error β} {invariant : β → Prop}
    {items : List γ} {start : β} (initially : invariant start)
    (kept : ∀ value, ∀ item ∈ items, invariant value →
      ∃ next, advance value item = .ok next ∧ invariant next) :
    ∃ final, items.foldlM advance start = .ok final ∧ invariant final := by
  induction items generalizing start with
  | nil => exact ⟨start, rfl, initially⟩
  | cons item rest ih =>
      obtain ⟨next, first, nextKept⟩ := kept start item List.mem_cons_self initially
      obtain ⟨final, later, finalKept⟩ := ih nextKept
        fun value other member => kept value other (List.mem_cons_of_mem _ member)
      refine ⟨final, ?_, finalKept⟩
      rw [List.foldlM_cons]
      exact bind_eq_ok.mpr ⟨next, first, later⟩

/-- If every round of two loops over the same items gives results and keeps a relation between the
two, so do the loops. -/
theorem exists_foldlM_pair {δ : Type} {advance : β → γ → Except Error β}
    {other : δ → γ → Except Error δ} {related : β → δ → Prop} {items : List γ} {start : β}
    {begin : δ} (initially : related start begin)
    (kept : ∀ value twin, ∀ item ∈ items, related value twin →
      ∃ next following, advance value item = .ok next ∧ other twin item = .ok following ∧
        related next following) :
    ∃ final last, items.foldlM advance start = .ok final ∧ items.foldlM other begin = .ok last ∧
      related final last := by
  induction items generalizing start begin with
  | nil => exact ⟨start, begin, rfl, rfl, initially⟩
  | cons item rest ih =>
      obtain ⟨next, following, first, second, nextRelated⟩ :=
        kept start begin item List.mem_cons_self initially
      obtain ⟨final, last, later, after, finalRelated⟩ := ih nextRelated
        fun value twin other member => kept value twin other (List.mem_cons_of_mem _ member)
      refine ⟨final, last, ?_, ?_, finalRelated⟩
      · rw [List.foldlM_cons]
        exact bind_eq_ok.mpr ⟨next, first, later⟩
      · rw [List.foldlM_cons]
        exact bind_eq_ok.mpr ⟨following, second, after⟩

end DecisionTree.Outcome
