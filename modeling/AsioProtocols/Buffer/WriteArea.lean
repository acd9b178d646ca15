import Mathlib.Data.List.Basic
import AsioProtocols.Base.Bytes
import AsioProtocols.Buffer

/-!
# The area `write_buffers` hands out

`write_buffers` first makes the ring longer by the `want target` cells it
reserves and then looks for free space around the two arrays. By then the cells
it reserved belong to the arrays, so what it finds is the space behind them:
`cells_writeBuffers` says which cells these are, for every ring. They are never
the reserved ones (`reservesArea_iff`): a reservation of any cell at all hands
out other cells, or too few.

`linear_writable` makes the ring longer in the same way, and remembers where
its end was (`linearReserves`).
-/

namespace AsioProtocols

/-- All cells of some areas, in order. -/
def cellsOf (areas : List Area) : List Nat := areas.flatMap Area.cells

namespace Buffer

variable {φ α : Type*}

/-! ## Space around the content -/

theorem takeSpace_spec (ptr remaining writable : Nat) :
    cellsOf (takeSpace ptr remaining writable).1 = List.range' ptr (min writable remaining) ∧
      (takeSpace ptr remaining writable).2 = writable - remaining := by
  unfold takeSpace
  split
  · dsimp only
    split
    · refine ⟨?_, by omega⟩
      rw [Nat.min_eq_left (by omega)]
      simp [cellsOf, Area.cells]
    · refine ⟨?_, rfl⟩
      rw [Nat.min_eq_right (by omega)]
      simp [cellsOf, Area.cells]
  · rw [show min writable remaining = 0 by omega]
    exact ⟨rfl, by omega⟩

/-- The space around the content is the cells of the positions behind it. -/
theorem cells_spaceAround (ring : CircularBuffer α) (writable : Nat) :
    cellsOf (spaceAround ring writable) =
      ring.cellsAt ring.size (min writable (ring.capacity - ring.size)) := by
  have hfirst := ring.first_le
  have hsize := ring.size_le_capacity
  unfold spaceAround
  simp only [CircularBuffer.arrayOne_start, CircularBuffer.arrayTwo_start,
    CircularBuffer.arrayOne_length, CircularBuffer.arrayTwo_length, Nat.zero_add, Nat.sub_zero]
  rw [cellsOf, List.flatMap_append, ← cellsOf, ← cellsOf]
  rw [(takeSpace_spec _ _ writable).1, (takeSpace_spec _ _ writable).2, (takeSpace_spec _ _ _).1]
  by_cases hwrap : ring.first + ring.size < ring.capacity
  · -- the content ends before the storage: the space goes on at the start of the storage
    rw [Nat.min_eq_left (show ring.size ≤ ring.capacity - ring.first by omega),
      show ring.size - (ring.capacity - ring.first) = 0 by omega]
    generalize hr : ring.capacity - (ring.first + ring.size) = r
    rw [show min writable (ring.capacity - ring.size) =
      min writable r + min (writable - r) (ring.first - 0) by omega, CircularBuffer.cellsAt_add]
    congr 1
    · exact (CircularBuffer.cellsAt_eq_range' (by omega)).symm
    · by_cases hmore : writable ≤ r
      · rw [show writable - r = 0 by omega, Nat.zero_min]
        rfl
      · rw [CircularBuffer.cellsAt_eq_range'_of_wrap (by omega)]
        congr 1
        omega
  · -- the content reaches the end of the storage: the space is between its end and its start
    rw [Nat.min_eq_right (show ring.capacity - ring.first ≤ ring.size by omega),
      show ring.capacity - (ring.first + (ring.capacity - ring.first)) = 0 by omega]
    rw [Nat.min_zero, Nat.sub_zero, List.range'_zero, List.nil_append,
      CircularBuffer.cellsAt_eq_range'_of_wrap (by omega)]
    congr 1 <;> omega

theorem totalSize_eq (areas : List Area) : totalSize areas = (cellsOf areas).length := by
  have hfold : ∀ n, areas.foldl (fun s a => s + a.length) n = n + (cellsOf areas).length := by
    induction areas with
    | nil => exact fun n => rfl
    | cons a rest ih =>
      intro n
      rw [List.foldl_cons, ih]
      simp only [cellsOf, List.flatMap_cons, List.length_append, Area.length_cells]
      omega
  simpa [totalSize] using hfold 0

/-! ## The reserved cells -/

variable (target : Nat) (b : Buffer φ α)

/-- What a reservation is meant to do: the areas are the cells of the reserved
positions in order, their sizes add up, none of them holds content, the content
is kept, and the size stays within the capacity. -/
structure ReservesArea (areas : List Area) (after : Buffer φ α) : Prop where
  cells : cellsOf areas = after.ring.cellsAt b.size (b.want target)
  total : totalSize areas = b.want target
  apart : (cellsOf areas).Disjoint (after.ring.cellsAt 0 b.size)
  content : after.ring.contents.take b.size = b.ring.contents
  size : after.size = b.size + b.want target
  capacity : after.size ≤ after.ring.capacity ∧ after.ring.capacity = after.maxSize

/-- Areas that are the reserved cells do all of it. -/
theorem ReservesArea.of_cells {areas : List Area} {after : Buffer φ α}
    (hsize : after.size = b.size + b.want target)
    (hcontents : after.ring.contents.take b.size = b.ring.contents)
    (hcells : cellsOf areas = after.ring.cellsAt b.size (b.want target)) :
    ReservesArea target b areas after where
  cells := hcells
  total := by rw [totalSize_eq, hcells, CircularBuffer.length_cellsAt]
  apart := by
    rw [hcells, List.disjoint_comm]
    refine CircularBuffer.cellsAt_disjoint (Nat.le_of_eq (Nat.zero_add _)) ?_
    exact hsize ▸ after.ring.size_le_capacity
  content := hcontents
  size := hsize
  capacity := ⟨after.ring.size_le_capacity, after.capacity_eq⟩

/-- A full buffer that need not grow has nothing to reserve. -/
theorem want_eq_zero_iff : b.want target = 0 ↔ b.size = b.maxSize ∧ target ≤ b.maxSize := by
  have := b.size_le
  unfold want
  split <;> omega

variable [Inhabited α]

/-- **What `write_buffers` hands out**: the cells behind the reserved ones. -/
theorem cells_writeBuffers :
    cellsOf (b.writeBuffers target).1 =
      (b.writeBuffers target).2.ring.cellsAt (b.size + b.want target)
        (min (b.want target) (max b.maxSize target - (b.size + b.want target))) := by
  show cellsOf (spaceAround (b.reserve target).2.ring (b.reserve target).1) = _
  rw [cells_spaceAround, reserve_fst, reserve_capacity, reserve_content.1]
  rfl

/-- The count that `write` computes is at most the number of reserved cells. -/
theorem totalSize_writeBuffers_le : totalSize (b.writeBuffers target).1 ≤ b.want target := by
  rw [totalSize_eq, cells_writeBuffers, CircularBuffer.length_cellsAt]
  exact Nat.min_le_left _ _

theorem take_reserve : (b.reserve target).2.ring.contents.take b.size = b.ring.contents := by
  rw [reserve_content.2]
  exact List.take_left' (CircularBuffer.length_contents b.ring)

/-- `linear_writable` hands out what it reserved. -/
theorem linearReserves : ReservesArea target b [(b.linearWritable target).1]
    (b.linearWritable target).2 := by
  have hsize : (b.linearWritable target).2.size = b.size + b.want target :=
    (CircularBuffer.size_linearize _).trans reserve_content.1
  have hcontents : (b.linearWritable target).2.ring.contents = (b.reserve target).2.ring.contents :=
    CircularBuffer.contents_linearize _
  refine .of_cells target b hsize (hcontents ▸ take_reserve target b) ?_
  have harea : (b.linearWritable target).1 =
      ⟨(b.reserve target).2.ring.linearize.1 + b.size, b.want target⟩ := by
    show Area.mk (_ + (b.growTo target).2.ring.size) (b.reserve target).1 = _
    rw [(growTo_content target b).1, reserve_fst]
    rfl
  rw [harea, cellsOf, List.flatMap_singleton, Area.cells]
  by_cases hnone : b.want target = 0
  · rw [hnone]
    rfl
  · -- something is reserved, so the pointer is to the first element
    have hne : (b.reserve target).2.ring.size ≠ 0 := by
      rw [reserve_content.1]
      omega
    obtain ⟨hptr, hend⟩ := CircularBuffer.linearize_spec hne
    rw [reserve_content.1] at hend
    rw [hptr]
    refine (CircularBuffer.cellsAt_eq_range' ?_).symm
    show _ ≤ ((b.reserve target).2.ring.linearize.2).capacity
    rw [CircularBuffer.capacity_linearize]
    exact (Nat.add_assoc _ _ _).le.trans hend

/-- `write_buffers` hands out what it reserved exactly when it reserves
nothing: the buffer is full, and the target does not make it larger. -/
theorem reservesArea_iff :
    ReservesArea target b (b.writeBuffers target).1 (b.writeBuffers target).2 ↔
      b.size = b.maxSize ∧ target ≤ b.maxSize := by
  rw [← want_eq_zero_iff]
  constructor
  · intro h
    by_contra hsome
    have hcells := h.cells
    have hcap : (b.writeBuffers target).2.ring.capacity = max b.maxSize target := reserve_capacity
    rw [cells_writeBuffers] at hcells
    -- as many cells are free behind the reserved ones, and the first of them is another cell
    have hlen := congrArg List.length hcells
    rw [CircularBuffer.length_cellsAt, CircularBuffer.length_cellsAt] at hlen
    have hmem : (b.writeBuffers target).2.ring.cell b.size ∈
        (b.writeBuffers target).2.ring.cellsAt b.size (b.want target) :=
      CircularBuffer.mem_cellsAt.mpr ⟨b.size, Nat.le_refl _, by omega, rfl⟩
    rw [← hcells] at hmem
    obtain ⟨k, hk, hk', heq⟩ := CircularBuffer.mem_cellsAt.mp hmem
    have := CircularBuffer.cell_inj (by omega) (by omega) heq
    omega
  · intro hnone
    refine .of_cells target b reserve_content.1 (take_reserve target b) ?_
    rw [cells_writeBuffers, hnone, Nat.zero_min]
    rfl

/-- Both functions do what a reservation is meant to do exactly then. -/
theorem reservesArea_both_iff :
    (ReservesArea target b (b.writeBuffers target).1 (b.writeBuffers target).2 ∧
      ReservesArea target b [(b.linearWritable target).1] (b.linearWritable target).2) ↔
      b.size = b.maxSize ∧ target ≤ b.maxSize := by
  constructor
  · intro h
    exact (reservesArea_iff target b).mp h.1
  · intro h
    exact ⟨(reservesArea_iff target b).mpr h, linearReserves target b⟩

/-- Four bytes of an empty buffer of ten: the area is the cells from 4 on. -/
theorem emptyBuffer_not_reservesArea :
    ¬ ReservesArea 4 (init 10 : Buffer Nat Byte) ((init 10 : Buffer Nat Byte).writeBuffers 4).1
      ((init 10 : Buffer Nat Byte).writeBuffers 4).2 := by
  intro h
  exact absurd h.cells (by decide)

end Buffer

end AsioProtocols
