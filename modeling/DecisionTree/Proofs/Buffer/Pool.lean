import DecisionTree.Proofs.Buffer.Merge

/-!
# A pool of buffers in use

A pool numbers buffers in the order in which they come into being.  `Pool.perform` makes one call on
the buffers of a pool, and `Pool.run` makes calls one after the other.

What a call does to a cell is said once (`Pool.cell?_perform`): a cell to which the call writes
nothing (`Call.writes`) keeps its value, or becomes zero because its buffer has grown.  So the cells
by which a buffer grows are zero until something is written to them (`Pool.cell?_run`).  No call
puts more cells into use than there are (`Pool.Sound.perform`), and none changes a buffer other than
those it is about (`Pool.getElem?_perform`).
-/

namespace DecisionTree

namespace Bisection

variable {values : Array Int} {key : Int} {low high : Nat}

/-- Bisection does not leave the part that it searches. -/
theorem lowerBound_le (ordered : low ≤ high) : lowerBound values key low high ≤ high := by
  fun_induction lowerBound values key low high with
  | case1 low high nonempty middle below ih =>
      apply ih
      omega
  | case2 low high nonempty middle notBelow ih =>
      have := ih (by omega)
      omega
  | case3 low high empty => exact ordered

theorem le_size_of_mem_lowerBoundsFrom {previous : Int} {place found : Nat} {keys : List Int}
    (inside : place ≤ values.size) (member : found ∈ lowerBoundsFrom values previous place keys) :
    found ≤ values.size := by
  induction keys generalizing previous place with
  | nil => cases member
  | cons key rest ih =>
      have first : (if previous < key then lowerBound values key place values.size
          else lowerBound values key 0 (min (place + 1) values.size)) ≤ values.size := by
        split
        · exact lowerBound_le inside
        · exact Nat.le_trans (lowerBound_le (Nat.zero_le _)) (Nat.min_le_right _ _)
      rcases List.mem_cons.mp member with rfl | later
      · exact first
      · exact ih first later

/-- In whatever order values and keys come, no place is found behind the end of the values. -/
theorem le_size_of_mem_lowerBounds {found : Nat} {keys : List Int}
    (member : found ∈ lowerBounds values keys) : found ≤ values.size := by
  cases keys with
  | nil => cases member
  | cons key rest => exact le_size_of_mem_lowerBoundsFrom Nat.le.refl member

theorem length_lowerBoundsFrom (values : Array Int) (previous : Int) (place : Nat)
    (keys : List Int) : (lowerBoundsFrom values previous place keys).length = keys.length := by
  induction keys generalizing previous place with
  | nil => rfl
  | cons key rest ih => rw [lowerBoundsFrom, List.length_cons, ih, List.length_cons]

theorem length_lowerBounds (values : Array Int) (keys : List Int) :
    (lowerBounds values keys).length = keys.length := by
  cases keys with
  | nil => rfl
  | cons key rest => exact length_lowerBoundsFrom values key values.size (key :: rest)

end Bisection

namespace Buffer

variable {buffer out : Buffer} {ids : List Int} {place : Nat} {value : Int}

/-- A buffer has at least one cell and no more cells in use than it has. -/
structure Sound (buffer : Buffer) : Prop where
  size_le : buffer.size ≤ buffer.capacity
  capacity_pos : 1 ≤ buffer.capacity

theorem sound_ofCapacity (capacity : Int) : (ofCapacity capacity).Sound := by
  refine ⟨Nat.zero_le _, ?_⟩
  simp only [Buffer.capacity, ofCapacity, Array.size_replicate]
  omega

theorem Sound.grow (sound : buffer.Sound) (least : Nat) : (buffer.grow least).Sound := by
  have larger := buffer.capacity_le_grow least
  refine ⟨?_, Nat.le_trans sound.capacity_pos larger⟩
  rw [size_grow]
  exact Nat.le_trans sound.size_le larger

theorem Sound.clear (sound : buffer.Sound) : buffer.clear.Sound :=
  ⟨Nat.zero_le _, sound.capacity_pos⟩

theorem Sound.reserve (sound : buffer.Sound) (count : Nat) : (buffer.reserve count).Sound :=
  ⟨buffer.le_capacity_grow count, (sound.grow count).capacity_pos⟩

theorem Sound.writeAll (sound : buffer.Sound) (items : List (Nat × Int)) :
    (buffer.writeAll items).Sound := by
  refine ⟨?_, ?_⟩
  · rw [size_writeAll, capacity_writeAll]
    exact sound.size_le
  · rw [capacity_writeAll]
    exact sound.capacity_pos

theorem capacity_mergeInto (buffer : Buffer) (ids : List Int) (out : Buffer) :
    (buffer.mergeInto ids out).capacity =
      (out.grow (buffer.view.length + ids.length)).capacity := by
  rw [mergeInto_eq_writeAll]
  exact capacity_writeAll _ _

theorem Sound.mergeInto (sound : out.Sound) (buffer : Buffer) (ids : List Int) :
    (buffer.mergeInto ids out).Sound := by
  have room := out.le_capacity_grow (buffer.view.length + ids.length)
  refine ⟨?_, ?_⟩
  · rw [capacity_mergeInto]
    exact room
  · rw [capacity_mergeInto]
    exact (sound.grow _).capacity_pos

/-- What a call may do to a buffer when it writes to some of its places: the buffer stays sound and
loses no cells, and a cell to which nothing is written keeps its value or becomes zero. -/
structure Changes (before after : Buffer) (written : List Nat) : Prop where
  sound : before.Sound → after.Sound
  capacity_le : before.capacity ≤ after.capacity
  kept : ∀ place value, place ∉ written → after.storage[place]? = some value →
    before.storage[place]? = some value ∨ value = 0

theorem changes_refl (buffer : Buffer) (written : List Nat) : Changes buffer buffer written :=
  ⟨id, Nat.le_refl _, fun _ _ _ found => .inl found⟩

theorem changes_grow (buffer : Buffer) (least : Nat) : Changes buffer (buffer.grow least) [] :=
  ⟨fun sound => sound.grow least, buffer.capacity_le_grow least,
    fun _ _ _ found => getElem?_of_grow found⟩

theorem changes_reserve (buffer : Buffer) (count : Nat) :
    Changes buffer (buffer.reserve count) [] :=
  ⟨fun sound => sound.reserve count, buffer.capacity_le_grow count,
    fun _ _ _ found => getElem?_of_grow found⟩

theorem changes_clear (buffer : Buffer) : Changes buffer buffer.clear [] :=
  ⟨Sound.clear, Nat.le_refl _, fun _ _ _ found => .inl found⟩

/-- Filling a buffer writes to its first places, one for each value. -/
theorem changes_fill (buffer : Buffer) (values : List Int) :
    Changes buffer (buffer.fill values) (List.range values.length) := by
  refine ⟨fun sound => (sound.reserve _).writeAll _, ?_, fun place value untouched found => ?_⟩
  · rw [fill, capacity_writeAll]
    exact buffer.capacity_le_grow _
  · rw [fill, writeAll_getElem?_of_not_mem] at found
    · exact getElem?_of_grow found
    · rw [List.map_map, Function.comp_def, List.zipIdx_map_snd, ← List.range_eq_range']
      exact untouched

/-- Merging writes to the places of the merged ids. -/
theorem changes_mergeInto (buffer : Buffer) (ids : List Int) (out : Buffer) :
    Changes out (buffer.mergeInto ids out) ((mergeWrites buffer.view ids).map Prod.fst) := by
  refine ⟨fun sound => sound.mergeInto buffer ids, ?_, fun place value untouched found => ?_⟩
  · rw [capacity_mergeInto]
    exact out.capacity_le_grow _
  · rw [mergeInto_eq_writeAll] at found
    exact getElem?_of_grow ((writeAll_getElem?_of_not_mem untouched).symm.trans found)

/-- In whatever order ids come, they are merged into the first places, as many as there are ids. -/
theorem lt_of_mem_places {others : List Int} (member : place ∈ places ids others) :
    place < ids.length + others.length := by
  obtain ⟨⟨found, own⟩, isFound, rfl⟩ := List.mem_map.mp member
  obtain ⟨-, bounded, foundEq⟩ := List.mem_zipIdx isFound
  have inside : found ≤ others.toArray.size := by
    rw [foundEq]
    exact Bisection.le_size_of_mem_lowerBounds (List.getElem_mem _)
  rw [Nat.zero_add, Bisection.length_lowerBounds] at bounded
  rw [List.size_toArray] at inside
  simp only
  omega

theorem lt_of_mem_mergeWrites {left : List Int}
    (member : place ∈ (mergeWrites left ids).map Prod.fst) : place < left.length + ids.length := by
  obtain ⟨item, written, rfl⟩ := List.mem_map.mp member
  rcases List.mem_append.mp written with first | second
  · exact lt_of_mem_places (List.of_mem_zip first).1
  · rw [Nat.add_comm]
    exact lt_of_mem_places (List.of_mem_zip second).1

/-- Behind the merged ids a buffer is as it is when it has grown to hold them. -/
theorem getElem?_mergeInto (buffer : Buffer) (ids : List Int) (out : Buffer)
    (behind : buffer.view.length + ids.length ≤ place) :
    (buffer.mergeInto ids out).storage[place]? =
      (out.grow (buffer.view.length + ids.length)).storage[place]? := by
  rw [mergeInto_eq_writeAll]
  apply writeAll_getElem?_of_not_mem
  intro written
  have := lt_of_mem_mergeWrites written
  omega

end Buffer

/-- Buffers in the order in which they came into being. -/
abbrev Pool : Type :=
  List Buffer

namespace Pool

/-- The second input of a merge: some ids, or those in use in a buffer. -/
inductive Input where
  | given (ids : List Int)
  | viewed (id : Nat)
  deriving DecidableEq, Repr

/-- A call on the buffers of a pool.  The second input of a merge is not read from the cells that
the merge writes. -/
inductive Call where
  | new (capacity : Int)
  | fill (id : Nat) (values : List Int)
  | reserve (id count : Nat)
  | grow (id least : Nat)
  | clear (id : Nat)
  /-- Takes the two turn-taking buffers of a workspace out of use. -/
  | reset (below swap : Nat)
  | merge (first : Nat) (input : Input) (out : Nat) (apart : input ≠ .viewed out)
  deriving DecidableEq, Repr

variable {pool : Pool} {call : Call} {id place : Nat} {buffer : Buffer} {value : Int}

/-- Every buffer of a pool is sound. -/
def Sound (pool : Pool) : Prop :=
  ∀ buffer ∈ pool, buffer.Sound

/-- The ids that an input stands for. -/
def idsOf (pool : Pool) : Input → Option (List Int)
  | .given ids => some ids
  | .viewed id => pool[id]?.map Buffer.view

/-- Puts a changed buffer in the place of a buffer. -/
def change (pool : Pool) (id : Nat) (change : Buffer → Buffer) : Except Error Unit × Pool :=
  match pool[id]? with
  | some buffer => (.ok (), pool.set id (change buffer))
  | none => (.error .outOfRange, pool)

/-- Makes a call.  The second result is the pool afterwards. -/
def perform (pool : Pool) : Call → Except Error Unit × Pool
  | .new capacity => (.ok (), pool ++ [.ofCapacity capacity])
  | .fill id values => pool.change id (·.fill values)
  | .reserve id count => pool.change id (·.reserve count)
  | .grow id least => pool.change id (·.grow least)
  | .clear id => pool.change id Buffer.clear
  | .reset below swap =>
      match pool[below]?, pool[swap]? with
      | some first, some second => (.ok (), (pool.set below first.clear).set swap second.clear)
      | _, _ => (.error .outOfRange, pool)
  | .merge first input out _ =>
      match pool[first]?, pool.idsOf input, pool[out]? with
      | some buffer, some ids, some target =>
          match Buffer.merge? first out buffer ids target with
          | .ok merged => (.ok (), pool.set out merged)
          | .error error => (.error error, pool)
      | _, _, _ => (.error .outOfRange, pool)

/-- The pool after some calls. -/
def run (pool : Pool) (calls : List Call) : Pool :=
  calls.foldl (fun pool call => (pool.perform call).2) pool

/-- The buffers that a call is about. -/
def Call.targets : Call → List Nat
  | .new _ => []
  | .fill id _ | .reserve id _ | .grow id _ | .clear id => [id]
  | .reset below swap => [below, swap]
  | .merge _ _ out _ => [out]

/-- The places of a buffer to which a call writes. -/
def Call.writes (pool : Pool) (id : Nat) : Call → List Nat
  | .fill target values => if id = target then List.range values.length else []
  | .merge first input out _ =>
      if id = out ∧ first ≠ out then
        match pool[first]?, pool.idsOf input with
        | some buffer, some ids => (Buffer.mergeWrites buffer.view ids).map Prod.fst
        | _, _ => []
      else []
  | _ => []

/-- None of some calls writes to a place of a buffer. -/
def Untouched (pool : Pool) (id place : Nat) : List Call → Prop
  | [] => True
  | call :: rest => place ∉ call.writes pool id ∧ Untouched (pool.perform call).2 id place rest

/-- The capacity of a buffer; none before it comes into being. -/
def capacityOf (pool : Pool) (id : Nat) : Nat :=
  (pool[id]?.map Buffer.capacity).getD 0

/-- What a cell of a buffer holds. -/
def cell? (pool : Pool) (id place : Nat) : Option Int :=
  pool[id]?.bind fun buffer => buffer.storage[place]?

/-- A buffer after a call: it is changed within its bounds if the call is about it, and is the same
otherwise. -/
def Becomes (pool next : Pool) (id : Nat) (buffer : Buffer) (call : Call) : Prop :=
  ∃ after, next[id]? = some after ∧ buffer.Changes after (call.writes pool id) ∧
    (id ∉ call.targets → after = buffer)

/-- A pool in which nothing happens to a buffer. -/
theorem becomes_self {next : Pool} (kept : next[id]? = some buffer) (call : Call) :
    pool.Becomes next id buffer call :=
  ⟨buffer, kept, buffer.changes_refl _, fun _ => rfl⟩

/-- A pool in which a buffer that the call is about is replaced. -/
theorem becomes_set {after : Buffer} {next : Pool} (inside : id < next.length)
    (named : id ∈ call.targets) (changes : buffer.Changes after (call.writes pool id)) :
    pool.Becomes (next.set id after) id buffer call :=
  ⟨after, List.getElem?_set_self inside, changes, fun other => absurd named other⟩

/-- A change of one buffer. -/
theorem becomes_change {change : Buffer → Buffer} {target : Nat} (found : pool[id]? = some buffer)
    (named : call.targets = [target])
    (changes : id = target → buffer.Changes (change buffer) (call.writes pool id)) :
    pool.Becomes (pool.change target change).2 id buffer call := by
  unfold Pool.change
  by_cases own : id = target
  · subst own
    rw [found]
    exact becomes_set (List.getElem?_eq_some_iff.mp found).1 (named ▸ List.mem_singleton_self id)
      (changes rfl)
  · split
    · exact becomes_self ((List.getElem?_set_ne (Ne.symm own)).trans found) call
    · exact becomes_self found call

theorem becomes_reset (found : pool[id]? = some buffer) (below swap : Nat) :
    pool.Becomes (pool.perform (.reset below swap)).2 id buffer (.reset below swap) := by
  have inside := (List.getElem?_eq_some_iff.mp found).1
  rw [perform]
  split
  next first second firstFound secondFound =>
    by_cases isSwap : id = swap
    · subst isSwap
      obtain rfl := Option.some.inj (found.symm.trans secondFound)
      refine becomes_set ?_ (List.mem_cons_of_mem _ (List.mem_singleton_self id))
        buffer.changes_clear
      rwa [List.length_set]
    · by_cases isBelow : id = below
      · subst isBelow
        obtain rfl := Option.some.inj (found.symm.trans firstFound)
        rw [List.set_comm _ _ isSwap]
        refine becomes_set ?_ List.mem_cons_self buffer.changes_clear
        rwa [List.length_set]
      · apply becomes_self
        rw [List.getElem?_set_ne (Ne.symm isSwap), List.getElem?_set_ne (Ne.symm isBelow)]
        exact found
  next => exact becomes_self found _

theorem becomes_merge (found : pool[id]? = some buffer) (first : Nat) (input : Input) (out : Nat)
    (apart : input ≠ .viewed out) :
    pool.Becomes (pool.perform (.merge first input out apart)).2 id buffer
      (.merge first input out apart) := by
  rw [perform]
  split
  next source ids target sourceFound idsFound targetFound =>
    rw [Buffer.merge?]
    by_cases same : out = first
    · rw [if_pos same]
      exact becomes_self found _
    · rw [if_neg same]
      by_cases own : id = out
      · subst own
        obtain rfl := Option.some.inj (found.symm.trans targetFound)
        refine becomes_set (List.getElem?_eq_some_iff.mp found).1 (List.mem_singleton_self id) ?_
        rw [Call.writes, if_pos ⟨rfl, Ne.symm same⟩, sourceFound, idsFound]
        exact Buffer.changes_mergeInto source ids buffer
      · exact becomes_self ((List.getElem?_set_ne (Ne.symm own)).trans found) _
  next => exact becomes_self found _

/-- What a call does to the buffers of a pool. -/
theorem becomes_perform (found : pool[id]? = some buffer) (call : Call) :
    pool.Becomes (pool.perform call).2 id buffer call := by
  cases call with
  | new capacity =>
      have inside := (List.getElem?_eq_some_iff.mp found).1
      exact becomes_self ((List.getElem?_append_left inside).trans found) _
  | fill target values =>
      refine becomes_change found rfl fun own => ?_
      rw [Call.writes, if_pos own]
      exact buffer.changes_fill values
  | reserve target count => exact becomes_change found rfl fun _ => buffer.changes_reserve count
  | grow target least => exact becomes_change found rfl fun _ => buffer.changes_grow least
  | clear target => exact becomes_change found rfl fun _ => buffer.changes_clear
  | reset below swap => exact becomes_reset found below swap
  | merge first input out apart => exact becomes_merge found first input out apart

theorem length_change (pool : Pool) (id : Nat) (change : Buffer → Buffer) :
    (pool.change id change).2.length = pool.length := by
  unfold Pool.change
  split
  · exact List.length_set
  · rfl

/-- A call that makes no buffer leaves their number. -/
theorem length_perform (pool : Pool) (call : Call) (old : ∀ capacity, call ≠ .new capacity) :
    (pool.perform call).2.length = pool.length := by
  cases call with
  | new capacity => exact absurd rfl (old capacity)
  | fill target values => exact pool.length_change _ _
  | reserve target count => exact pool.length_change _ _
  | grow target least => exact pool.length_change _ _
  | clear target => exact pool.length_change _ _
  | reset below swap =>
      rw [perform]
      split
      · rw [List.length_set, List.length_set]
      · rfl
  | merge first input out apart =>
      rw [perform]
      split
      · split
        · exact List.length_set
        · rfl
      · rfl

/-- A buffer that was not there before a call is a new one. -/
theorem eq_ofCapacity_of_perform (absent : pool[id]? = none)
    (found : (pool.perform call).2[id]? = some buffer) :
    ∃ capacity, buffer = .ofCapacity capacity := by
  have outside := List.getElem?_eq_none_iff.mp absent
  have inside := (List.getElem?_eq_some_iff.mp found).1
  by_cases old : ∀ capacity, call ≠ .new capacity
  · rw [length_perform pool call old] at inside
    omega
  · simp only [ne_eq, not_forall, not_not] at old
    obtain ⟨capacity, rfl⟩ := old
    rw [perform] at found
    simp only [List.getElem?_append_right outside] at found
    exact ⟨capacity, (List.mem_singleton.mp (List.mem_of_getElem? found))⟩

theorem Sound.perform (sound : pool.Sound) (call : Call) : Sound (pool.perform call).2 := by
  intro after member
  obtain ⟨id, found⟩ := List.getElem?_of_mem member
  cases before : pool[id]? with
  | none =>
      obtain ⟨capacity, rfl⟩ := eq_ofCapacity_of_perform before found
      exact Buffer.sound_ofCapacity capacity
  | some buffer =>
      obtain ⟨other, otherFound, changes, -⟩ := becomes_perform before call
      obtain rfl := Option.some.inj (found.symm.trans otherFound)
      exact changes.sound (sound buffer (List.mem_of_getElem? before))

theorem capacityOf_perform (pool : Pool) (call : Call) (id : Nat) :
    pool.capacityOf id ≤ capacityOf (pool.perform call).2 id := by
  cases before : pool[id]? with
  | none =>
      rw [capacityOf, before]
      exact Nat.zero_le _
  | some buffer =>
      obtain ⟨after, found, changes, -⟩ := becomes_perform before call
      rw [capacityOf, capacityOf, before, found]
      exact changes.capacity_le

/-- A cell to which a call writes nothing keeps its value or becomes zero. -/
theorem cell?_perform (untouched : place ∉ call.writes pool id)
    (found : cell? (pool.perform call).2 id place = some value) :
    pool.cell? id place = some value ∨ value = 0 := by
  obtain ⟨after, afterFound, stored⟩ := Option.bind_eq_some_iff.mp found
  cases before : pool[id]? with
  | none =>
      obtain ⟨capacity, rfl⟩ := eq_ofCapacity_of_perform before afterFound
      exact .inr (Buffer.getElem?_replicate_zero stored)
  | some buffer =>
      obtain ⟨other, otherFound, changes, -⟩ := becomes_perform before call
      obtain rfl := Option.some.inj (afterFound.symm.trans otherFound)
      rw [cell?, before]
      exact changes.kept place value untouched stored

theorem Sound.run (sound : pool.Sound) (calls : List Call) : Sound (pool.run calls) := by
  induction calls generalizing pool with
  | nil => exact sound
  | cons call rest ih => exact ih (sound.perform call)

theorem capacityOf_run (pool : Pool) (calls : List Call) (id : Nat) :
    pool.capacityOf id ≤ capacityOf (pool.run calls) id := by
  induction calls generalizing pool with
  | nil => exact Nat.le_refl _
  | cons call rest ih => exact Nat.le_trans (pool.capacityOf_perform call id) (ih _)

theorem cell?_run {calls : List Call} (untouched : pool.Untouched id place calls)
    (found : cell? (pool.run calls) id place = some value) :
    pool.cell? id place = some value ∨ value = 0 := by
  induction calls generalizing pool with
  | nil => exact .inl found
  | cons call rest ih =>
      obtain ⟨first, later⟩ := untouched
      rcases ih later found with before | zero
      · exact cell?_perform first before
      · exact .inr zero

theorem cell?_eq_some_iff : pool.cell? id place = some value ↔
    ∃ buffer, pool[id]? = some buffer ∧ buffer.storage[place]? = some value :=
  Option.bind_eq_some_iff

/-- The cells of a pool are those below the capacities of its buffers. -/
theorem exists_cell?_iff : (∃ value, pool.cell? id place = some value) ↔
    place < pool.capacityOf id := by
  simp only [cell?_eq_some_iff, capacityOf]
  cases pool[id]? with
  | none => simp
  | some buffer =>
      simp only [Option.some.injEq, exists_eq_left', Option.map_some, Option.getD_some,
        Array.getElem?_eq_some_iff]
      exact ⟨fun ⟨_, inside, _⟩ => inside, fun inside => ⟨_, inside, rfl⟩⟩

/-- A buffer can be grown, and its content stays. -/
theorem exists_perform_grow (sound : pool.Sound) (found : pool[id]? = some buffer) (least : Nat) :
    ∃ grown, pool.perform (.grow id least) = (.ok (), pool.set id grown) ∧
      grown.view = buffer.view ∧ least ≤ grown.capacity := by
  refine ⟨buffer.grow least, ?_, ?_, buffer.le_capacity_grow least⟩
  · rw [perform, change, found]
  · exact buffer.view_grow least (sound buffer (List.mem_of_getElem? found)).size_le

/-- Whatever calls are made on the buffers of a pool, every buffer has at least one cell and no more
cells in use than it has, and no buffer loses cells.  The cells by which a buffer has grown hold
zero as long as no call writes to them.  No call changes a buffer that it is not about, and growing
a buffer leaves its content.  A merge into its own first input fails and leaves all buffers; any
other merge of buffers that are there succeeds, and writes only to as many first cells as there are
ids to merge, in whatever order these come. -/
theorem calls_keep_buffers (pool : Pool) (sound : pool.Sound) (calls : List Call) :
    let reached := pool.run calls
    (∀ buffer ∈ reached, buffer.size ≤ buffer.capacity ∧ 1 ≤ buffer.capacity) ∧
    (∀ id, pool.capacityOf id ≤ reached.capacityOf id) ∧
    (∀ id place, pool.capacityOf id ≤ place → place < reached.capacityOf id →
      pool.Untouched id place calls → reached.cell? id place = some 0) ∧
    (∀ (call : Call) (id : Nat) (buffer : Buffer), id ∉ call.targets →
      reached[id]? = some buffer → (reached.perform call).2[id]? = some buffer) ∧
    (∀ (id least : Nat) (buffer : Buffer), reached[id]? = some buffer →
      ∃ grown, reached.perform (.grow id least) = (.ok (), reached.set id grown) ∧
        grown.view = buffer.view ∧ least ≤ grown.capacity) ∧
    ∀ (first : Nat) (input : Input) (out : Nat) (apart : input ≠ .viewed out)
      (buffer target : Buffer) (ids : List Int), reached[first]? = some buffer →
      reached.idsOf input = some ids → reached[out]? = some target →
      let call := Call.merge first input out apart
      let count := buffer.view.length + ids.length
      (out = first → reached.perform call = (.error .mergeIntoInput, reached)) ∧
      (out ≠ first → ∃ merged, reached.perform call = (.ok (), reached.set out merged) ∧
        merged.size = count ∧ (∀ place ∈ call.writes reached out, place < count) ∧
        ∀ place, count ≤ place →
          merged.storage[place]? = (target.grow count).storage[place]?) := by
  intro reached
  have reachedSound : reached.Sound := sound.run calls
  refine ⟨fun buffer member => ?_, pool.capacityOf_run calls, ?_, ?_, ?_, ?_⟩
  · exact ⟨(reachedSound buffer member).size_le, (reachedSound buffer member).capacity_pos⟩
  · intro id place new inside untouched
    obtain ⟨value, found⟩ := exists_cell?_iff.mpr inside
    rcases cell?_run untouched found with before | rfl
    · have old := exists_cell?_iff.mp ⟨value, before⟩
      omega
    · exact found
  · intro call id buffer other found
    obtain ⟨after, afterFound, -, same⟩ := becomes_perform found call
    rw [afterFound, same other]
  · intro id least buffer found
    exact exists_perform_grow reachedSound found least
  · intro first input out apart buffer target ids bufferFound idsFound targetFound call count
    have performed : reached.perform call = match Buffer.merge? first out buffer ids target with
        | .ok merged => (.ok (), reached.set out merged)
        | .error error => (.error error, reached) := by
      simp only [call, perform, bufferFound, idsFound, targetFound]
    rw [performed, Buffer.merge?]
    refine ⟨fun same => by rw [if_pos same], fun differ => ?_⟩
    refine ⟨buffer.mergeInto ids target, ?_, rfl, ?_,
      fun place behind => buffer.getElem?_mergeInto ids target behind⟩
    · rw [if_neg differ]
    · intro place written
      simp only [call, Call.writes, true_and, ne_eq, Ne.symm differ, not_false_eq_true, if_true,
        bufferFound, idsFound] at written
      exact Buffer.lt_of_mem_mergeWrites written

/-- Two buffers with cells from earlier work. -/
def Sample.used : Pool :=
  [{ storage := #[4, 1, 9], size := 2 }, { storage := #[8, 7], size := 0 }]

/-- The first of two buffers grows to seven cells, of which the fourth is not written to.  Four ids
that do not ascend are merged into the second buffer, which has two cells; they are written to the
first four of its cells.  They cannot be merged into the buffer that two of them come from. -/
theorem calls_keep_buffers_sample :
    let calls : List Call := [.grow 0 7, .fill 1 [6], .clear 1]
    let reached := Sample.used.run calls
    Sample.used.Sound ∧ Sample.used.Untouched 0 3 calls ∧ reached.cell? 0 3 = some 0 ∧
    (∃ merged, reached.perform (.merge 0 (.given [3, 2]) 1 (by decide)) =
        (.ok (), reached.set 1 merged) ∧ merged.size = 4) ∧
    reached.perform (.merge 0 (.given [3, 2]) 0 (by decide)) =
      (.error .mergeIntoInput, reached) := by
  intro calls reached
  have sound : Sample.used.Sound := by
    intro buffer member
    rcases List.mem_pair.mp member with rfl | rfl <;> constructor <;> decide
  have untouched : Sample.used.Untouched 0 3 calls := by
    refine ⟨?_, ?_, ?_, trivial⟩ <;> decide
  obtain ⟨-, -, zero, -, -, merging⟩ := calls_keep_buffers Sample.used sound calls
  refine ⟨sound, untouched, zero 0 3 (by decide) (by decide) untouched, ?_, ?_⟩
  · obtain ⟨merged, performed, size, -⟩ := (merging 0 (.given [3, 2]) 1 (by decide) _ _ _ rfl rfl
      rfl).2 (by decide)
    exact ⟨merged, performed, size⟩
  · exact (merging 0 (.given [3, 2]) 0 (by decide) _ _ _ rfl rfl rfl).1 rfl

end Pool

end DecisionTree
