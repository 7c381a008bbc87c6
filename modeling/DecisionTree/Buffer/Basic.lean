import DecisionTree.Position

/-!
# Scratch buffers

A buffer is a row of storage cells of which the first `size` are in use.  Storage
only grows, so one buffer serves many splits; what lies behind the cells in use is
left over from earlier work, except that freshly grown cells are zero.
-/

namespace DecisionTree

/-- Storage for example ids with a count of the cells in use. -/
structure Buffer where
  storage : Array Int
  size : Nat
  deriving DecidableEq, Repr

namespace Buffer

/-- The capacity of buffers for which none is asked. -/
def defaultCapacity : Int := 1000

/-- An empty buffer; it always has at least one cell. -/
def ofCapacity (capacity : Int) : Buffer where
  storage := Array.replicate (max capacity 1).toNat 0
  size := 0

def capacity (buffer : Buffer) : Nat :=
  buffer.storage.size

/-- The ids in the cells in use. -/
def view (buffer : Buffer) : List Int :=
  (buffer.storage.extract 0 buffer.size).toList

/-- Makes room for `least` cells, at once twice the storage if that is more.  Only the
cells in use keep their content. -/
def grow (buffer : Buffer) (least : Nat) : Buffer :=
  if least ≤ buffer.capacity then buffer
  else
    let capacity := max least (2 * buffer.capacity)
    let kept := buffer.storage.extract 0 buffer.size
    { buffer with storage := kept ++ Array.replicate (capacity - kept.size) 0 }

/-- Puts a number of cells into use, whatever they hold. -/
def reserve (buffer : Buffer) (count : Nat) : Buffer :=
  { buffer.grow count with size := count }

def clear (buffer : Buffer) : Buffer :=
  { buffer with size := 0 }

@[simp] theorem view_clear (buffer : Buffer) : buffer.clear.view = [] := by
  simp [view, clear]

@[simp] theorem size_reserve (buffer : Buffer) (count : Nat) :
    (buffer.reserve count).size = count :=
  rfl

theorem length_view (buffer : Buffer) : buffer.view.length = min buffer.size buffer.capacity := by
  simp [view, capacity]

/-- Growing makes the room that was asked for. -/
theorem le_capacity_grow (buffer : Buffer) (least : Nat) :
    least ≤ (buffer.grow least).capacity := by
  unfold grow
  split
  · assumption
  · simp only [capacity, Array.size_append, Array.size_extract, Array.size_replicate]
    omega

/-- Storage never shrinks. -/
theorem capacity_le_grow (buffer : Buffer) (least : Nat) :
    buffer.capacity ≤ (buffer.grow least).capacity := by
  unfold grow
  split
  · exact Nat.le_refl _
  · simp only [capacity, Array.size_append, Array.size_extract, Array.size_replicate]
    omega

/-- Growing keeps what is in use. -/
theorem view_grow (buffer : Buffer) (least : Nat) (fits : buffer.size ≤ buffer.capacity) :
    (buffer.grow least).view = buffer.view := by
  unfold grow
  split
  · rfl
  · have kept : (buffer.storage.extract 0 buffer.size).size = buffer.size := by
      simp only [Array.size_extract]
      exact Nat.min_eq_left fits
    simp [view, Array.extract_append, kept]

/-- Writes one cell. -/
def write (buffer : Buffer) (place : Nat) (value : Int) : Buffer :=
  { buffer with storage := buffer.storage.setIfInBounds place value }

/-- Writes values at places, in order. -/
def writeAll (buffer : Buffer) (items : List (Nat × Int)) : Buffer :=
  items.foldl (fun buffer (place, value) => buffer.write place value) buffer

/-- Puts exactly the given values into use. -/
def fill (buffer : Buffer) (values : List Int) : Buffer :=
  (buffer.reserve values.length).writeAll (values.zipIdx.map fun (value, place) => (place, value))

def summary (buffer : Buffer) : String :=
  s!"IndexBuffer(size={buffer.size}, capacity={buffer.capacity})"

end Buffer

end DecisionTree
