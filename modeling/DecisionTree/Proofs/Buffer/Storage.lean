import DecisionTree.Buffer.Basic

/-!
# What the cells of a buffer hold

Writing at distinct places is the only way in which buffers change their cells.  The
lemmas here say what a cell holds after a list of writes, and derive from it that filling
a buffer makes its view the given values.
-/

namespace DecisionTree.Buffer

variable {buffer : Buffer} {items : List (Nat × Int)}

/-- An id in use is read from the storage. -/
theorem view_getElem? (buffer : Buffer) (place : Nat) :
    buffer.view[place]? = if place < buffer.size then buffer.storage[place]? else none := by
  simp only [view, Array.getElem?_toList, Array.getElem?_extract, Nat.zero_add, Nat.sub_zero,
    Nat.lt_min]
  by_cases inUse : place < buffer.size
  · by_cases stored : place < buffer.storage.size
    · simp [inUse, stored]
    · simp [inUse, stored]
  · simp [inUse]

@[simp] theorem size_write (buffer : Buffer) (place : Nat) (value : Int) :
    (buffer.write place value).size = buffer.size :=
  rfl

@[simp] theorem capacity_write (buffer : Buffer) (place : Nat) (value : Int) :
    (buffer.write place value).capacity = buffer.capacity := by
  simp [write, capacity]

theorem write_getElem? (buffer : Buffer) (place other : Nat) (value : Int) :
    (buffer.write place value).storage[other]? =
      if place = other ∧ place < buffer.capacity then some value else buffer.storage[other]? := by
  simp only [write, Array.getElem?_setIfInBounds, capacity]
  by_cases same : place = other
  · subst same
    by_cases stored : place < buffer.storage.size <;> simp [stored]
  · simp [same]

theorem writeAll_cons (buffer : Buffer) (item : Nat × Int) (rest : List (Nat × Int)) :
    buffer.writeAll (item :: rest) = (buffer.write item.1 item.2).writeAll rest :=
  rfl

theorem writeAll_append (buffer : Buffer) (first second : List (Nat × Int)) :
    buffer.writeAll (first ++ second) = (buffer.writeAll first).writeAll second := by
  simp [writeAll]

@[simp] theorem size_writeAll (buffer : Buffer) (items : List (Nat × Int)) :
    (buffer.writeAll items).size = buffer.size := by
  induction items generalizing buffer with
  | nil => rfl
  | cons item rest ih => rw [writeAll_cons, ih, size_write]

@[simp] theorem capacity_writeAll (buffer : Buffer) (items : List (Nat × Int)) :
    (buffer.writeAll items).capacity = buffer.capacity := by
  induction items generalizing buffer with
  | nil => rfl
  | cons item rest ih => rw [writeAll_cons, ih, capacity_write]

/-- A cell at which nothing is written keeps its content. -/
theorem writeAll_getElem?_of_not_mem {place : Nat} (untouched : place ∉ items.map Prod.fst) :
    (buffer.writeAll items).storage[place]? = buffer.storage[place]? := by
  induction items generalizing buffer with
  | nil => rfl
  | cons item rest ih =>
      simp only [List.map_cons, List.mem_cons, not_or] at untouched
      rw [writeAll_cons, ih untouched.2, write_getElem?, if_neg]
      exact fun target => untouched.1 target.1.symm

/-- Among writes at distinct places each one is found again. -/
theorem writeAll_getElem?_of_mem {place : Nat} {value : Int}
    (distinct : (items.map Prod.fst).Nodup) (written : (place, value) ∈ items)
    (inside : place < buffer.capacity) :
    (buffer.writeAll items).storage[place]? = some value := by
  induction items generalizing buffer with
  | nil => simp at written
  | cons item rest ih =>
      have ⟨fresh, restDistinct⟩ := List.nodup_cons.mp distinct
      rw [writeAll_cons]
      rcases List.mem_cons.mp written with rfl | later
      · rw [writeAll_getElem?_of_not_mem fresh, write_getElem?, if_pos ⟨rfl, inside⟩]
      · exact ih restDistinct later (by rwa [capacity_write])

/-- Writes of one value: a cell holds it afterwards if it was written or held it before. -/
theorem writeAll_getElem?_of_const {places : List Nat} {value : Int} {place : Nat}
    (written : place ∈ places) (inside : place < buffer.capacity) :
    (buffer.writeAll (places.map fun place => (place, value))).storage[place]? =
      some value := by
  induction places generalizing buffer with
  | nil => simp at written
  | cons first rest ih =>
      rw [List.map_cons, writeAll_cons]
      by_cases again : place ∈ rest
      · exact ih again (by rwa [capacity_write])
      · have first : first = place := by
          rcases List.mem_cons.mp written with same | later
          · exact same.symm
          · exact absurd later again
        rw [writeAll_getElem?_of_not_mem (by simpa using again), write_getElem?, first,
          if_pos ⟨rfl, inside⟩]

@[simp] theorem size_grow (buffer : Buffer) (least : Nat) :
    (buffer.grow least).size = buffer.size := by
  unfold grow
  split <;> rfl

theorem getElem?_replicate_zero {count place : Nat} {value : Int}
    (found : (Array.replicate count (0 : Int))[place]? = some value) : value = 0 := by
  rw [Array.getElem?_replicate] at found
  split at found
  · exact (Option.some.inj found).symm
  · contradiction

/-- A cell of a buffer that has grown is zero unless it was there before. -/
theorem getElem?_of_grow {least place : Nat} {value : Int}
    (found : (buffer.grow least).storage[place]? = some value) :
    buffer.storage[place]? = some value ∨ value = 0 := by
  unfold grow at found
  split at found
  · exact .inl found
  · simp only [Array.getElem?_append] at found
    split at found
    · rw [Array.getElem?_extract] at found
      split at found
      · rw [Nat.zero_add] at found
        exact .inl found
      · cases found
    · exact .inr (getElem?_replicate_zero found)

/-- Filling a buffer makes its view the given values. -/
@[simp] theorem view_fill (buffer : Buffer) (values : List Int) :
    (buffer.fill values).view = values := by
  have room : values.length ≤ (buffer.reserve values.length).capacity :=
    buffer.le_capacity_grow values.length
  apply List.ext_getElem?
  intro place
  rw [view_getElem?]
  simp only [fill, size_writeAll, size_reserve]
  split
  next inUse =>
    have listed : (place, values[place]) ∈
        values.zipIdx.map fun (item : Int × Nat) => (item.2, item.1) := by
      simp only [List.mem_map, Prod.exists]
      exact ⟨values[place], place, by simp [List.mem_zipIdx_iff_getElem?, inUse], rfl⟩
    rw [List.getElem?_eq_getElem inUse]
    refine writeAll_getElem?_of_mem ?_ listed (Nat.lt_of_lt_of_le inUse room)
    simp only [List.map_map, Function.comp_def]
    rw [List.zipIdx_map_snd]
    exact List.nodup_range'
  next beyond =>
    exact (List.getElem?_eq_none (Nat.le_of_not_lt beyond)).symm

end DecisionTree.Buffer
