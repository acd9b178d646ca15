import Mathlib.Data.List.Basic
import Mathlib.Data.List.Infix

/-!
# Circular buffers

`boost::circular_buffer`: a fixed `storage`, of which `size` cells from `first`
on are in use, going on at the start of the storage where its end is reached.
A pointer into the storage is the index of a cell, and an `Area` a pointer with
a length. The cells that are not in use hold something, but never count.

- `cell i`: where the element of logical position `i` is. `cellsAt i n` are the
  cells of the `n` positions from `i` on.
- `cellsAt_eq_range'`, `cellsAt_eq_range'_of_wrap`: positions that stay on one
  side of the end of the storage are one area. Everything about the areas
  `arrayOne` and `arrayTwo` is read off these two.
- `contents`: the elements in logical order. Each operation has its lemma
  there, under the name of the operation.

Enlarging a buffer takes memory, and there is always enough of it.
-/

namespace AsioProtocols

/-- Consecutive cells of a storage: a pointer to the first, and their number. -/
structure Area where
  start : Nat
  length : Nat
  deriving DecidableEq, Repr

namespace Area

def cells (a : Area) : List Nat := List.range' a.start a.length

/-- What the cells of an area hold. -/
def read {α : Type*} (storage : List α) (a : Area) : List α :=
  (storage.drop a.start).take a.length

@[simp] theorem length_cells (a : Area) : a.cells.length = a.length := List.length_range'

end Area

/-! ## Storing into cells -/

/-- `xs` with `vs` stored from index `i` on. -/
def overwrite {α : Type*} : Nat → List α → List α → List α
  | _, [], xs => xs
  | i, v :: vs, xs => overwrite (i + 1) vs (xs.set i v)

section

variable {α : Type*}

@[simp] theorem length_overwrite (i : Nat) (vs xs : List α) :
    (overwrite i vs xs).length = xs.length := by
  induction vs generalizing i xs with
  | nil => rfl
  | cons v vs ih => rw [overwrite, ih, List.length_set]

theorem getElem?_overwrite_of_not_mem {i j : Nat} {vs xs : List α}
    (h : j < i ∨ i + vs.length ≤ j) : (overwrite i vs xs)[j]? = xs[j]? := by
  induction vs generalizing i xs with
  | nil => rfl
  | cons v vs ih =>
    rw [List.length_cons] at h
    rw [overwrite, ih (by omega), List.getElem?_set_ne (by omega)]

theorem getElem?_overwrite {i k : Nat} {vs xs : List α} (hk : k < vs.length)
    (hfits : i + vs.length ≤ xs.length) : (overwrite i vs xs)[i + k]? = vs[k]? := by
  induction vs generalizing i k xs with
  | nil => exact absurd hk (Nat.not_lt_zero _)
  | cons v vs ih =>
    rw [List.length_cons] at hk hfits
    cases k with
    | zero =>
      rw [overwrite, getElem?_overwrite_of_not_mem (by omega)]
      exact List.getElem?_set_self (by omega)
    | succ k =>
      have hrest : (overwrite (i + 1) vs (xs.set i v))[i + 1 + k]? = vs[k]? :=
        ih (by omega) (by rw [List.length_set]; omega)
      rw [overwrite, ← Nat.add_assoc, Nat.add_right_comm, hrest]
      rfl

end

/-- The storage with the part of it in use. -/
structure CircularBuffer (α : Type*) where
  storage : List α
  first : Nat
  size : Nat
  first_lt : first = 0 ∨ first < storage.length
  size_le : size ≤ storage.length

namespace CircularBuffer

variable {α : Type*} {b : CircularBuffer α}

def capacity (b : CircularBuffer α) : Nat := b.storage.length

/-- A cell index that may have run past the end of the storage. -/
def wrap (b : CircularBuffer α) (i : Nat) : Nat := if i < b.capacity then i else i - b.capacity

/-- The cell of a logical position. -/
def cell (b : CircularBuffer α) (i : Nat) : Nat := b.wrap (b.first + i)

/-- The cells of `n` logical positions from `i` on. -/
def cellsAt (b : CircularBuffer α) (i n : Nat) : List Nat := (List.range' i n).map b.cell

theorem size_le_capacity (b : CircularBuffer α) : b.size ≤ b.capacity := b.size_le

theorem first_le (b : CircularBuffer α) : b.first ≤ b.capacity := by
  unfold capacity
  have := b.first_lt
  omega

/-- A turn around the storage ends inside of it. -/
theorem wrap_first (b : CircularBuffer α) {n : Nat} (h : n ≤ b.capacity) :
    b.wrap (b.first + n) = 0 ∨ b.wrap (b.first + n) < b.storage.length := by
  have := b.first_lt
  unfold wrap
  unfold capacity at h ⊢
  split <;> omega

theorem cell_lt (b : CircularBuffer α) {i : Nat} (h : i < b.capacity) : b.cell i < b.capacity := by
  have := b.first_lt
  unfold cell wrap
  unfold capacity at h ⊢
  split <;> omega

/-! ## Areas and positions -/

@[simp] theorem length_cellsAt (b : CircularBuffer α) (i n : Nat) :
    (b.cellsAt i n).length = n := by
  simp [cellsAt]

@[simp] theorem cellsAt_zero (b : CircularBuffer α) (i : Nat) : b.cellsAt i 0 = [] := rfl

theorem cellsAt_add (b : CircularBuffer α) (i m n : Nat) :
    b.cellsAt i (m + n) = b.cellsAt i m ++ b.cellsAt (i + m) n := by
  rw [cellsAt, ← List.range'_append_1, List.map_append]
  rfl

/-- Positions before the end of the storage. -/
theorem cellsAt_eq_range' {i n : Nat} (h : b.first + i + n ≤ b.capacity) :
    b.cellsAt i n = List.range' (b.first + i) n := by
  refine List.ext_getElem (by simp [cellsAt]) fun k hk _ => ?_
  have hlt : k < n := by simpa [cellsAt] using hk
  simp only [cellsAt, cell, wrap, List.getElem_map, List.getElem_range', Nat.one_mul]
  rw [if_pos (by omega)]
  omega

/-- Positions behind the end of the storage. -/
theorem cellsAt_eq_range'_of_wrap {i n : Nat} (h : b.capacity ≤ b.first + i) :
    b.cellsAt i n = List.range' (b.first + i - b.capacity) n := by
  refine List.ext_getElem (by simp [cellsAt]) fun k hk _ => ?_
  simp only [cellsAt, cell, wrap, List.getElem_map, List.getElem_range', Nat.one_mul]
  rw [if_neg (by omega)]
  omega

/-- Different positions of one turn are in different cells. -/
theorem cell_inj {i j : Nat} (hi : i < b.capacity) (hj : j < b.capacity)
    (h : b.cell i = b.cell j) : i = j := by
  have := b.first_le
  unfold cell wrap at h
  split at h <;> split at h <;> omega

theorem mem_cellsAt {c i n : Nat} : c ∈ b.cellsAt i n ↔ ∃ k, i ≤ k ∧ k < i + n ∧ b.cell k = c := by
  simp [cellsAt, List.mem_range'_1, and_assoc]

/-- Positions apart share no cell. -/
theorem cellsAt_disjoint {i m j n : Nat} (hij : i + m ≤ j) (hjn : j + n ≤ b.capacity) :
    (b.cellsAt i m).Disjoint (b.cellsAt j n) := by
  intro c hi hj
  obtain ⟨k, _, hk, rfl⟩ := mem_cellsAt.mp hi
  obtain ⟨l, hl, hl', heq⟩ := mem_cellsAt.mp hj
  have := cell_inj (by omega) (by omega) heq
  omega

/-! ## The two arrays -/

/-- The cell behind the last element. -/
def last (b : CircularBuffer α) : Nat := b.wrap (b.first + b.size)

/-- The content reaches the end of the storage. -/
def Wraps (b : CircularBuffer α) : Prop := b.last ≤ b.first ∧ b.size ≠ 0

instance (b : CircularBuffer α) : Decidable b.Wraps :=
  inferInstanceAs (Decidable (b.last ≤ b.first ∧ b.size ≠ 0))

/-- The part of the content up to the end of the storage. -/
def arrayOne (b : CircularBuffer α) : Area :=
  ⟨b.first, (if b.Wraps then b.capacity else b.last) - b.first⟩

/-- The part of the content that went on at the start of the storage. -/
def arrayTwo (b : CircularBuffer α) : Area := ⟨0, if b.Wraps then b.last else 0⟩

@[simp] theorem arrayOne_start (b : CircularBuffer α) : b.arrayOne.start = b.first := rfl

@[simp] theorem arrayTwo_start (b : CircularBuffer α) : b.arrayTwo.start = 0 := rfl

theorem wraps_iff : b.Wraps ↔ b.capacity ≤ b.first + b.size ∧ b.size ≠ 0 := by
  have := b.size_le_capacity
  unfold Wraps last wrap
  split <;> omega

@[simp] theorem arrayOne_length (b : CircularBuffer α) :
    b.arrayOne.length = min b.size (b.capacity - b.first) := by
  have hsize := b.size_le_capacity
  have hfirst := b.first_le
  show (if b.Wraps then b.capacity else b.last) - b.first = _
  by_cases hw : b.Wraps
  · have := wraps_iff.mp hw
    rw [if_pos hw]
    omega
  · rw [if_neg hw, last, wrap]
    rw [wraps_iff] at hw
    split <;> omega

@[simp] theorem arrayTwo_length (b : CircularBuffer α) :
    b.arrayTwo.length = b.size - (b.capacity - b.first) := by
  have hfirst := b.first_le
  show (if b.Wraps then b.last else 0) = _
  by_cases hw : b.Wraps
  · have := wraps_iff.mp hw
    rw [if_pos hw, last, wrap, if_neg (by omega)]
    omega
  · rw [if_neg hw]
    rw [wraps_iff] at hw
    omega

/-! ## Content -/

/-- The storage, read once around from the first element. -/
def rotated (b : CircularBuffer α) : List α := b.storage.drop b.first ++ b.storage.take b.first

/-- The elements in logical order. -/
def contents (b : CircularBuffer α) : List α := b.rotated.take b.size

@[simp] theorem length_rotated (b : CircularBuffer α) : b.rotated.length = b.capacity := by
  have := b.first_le
  simp only [rotated, capacity, List.length_append, List.length_drop, List.length_take] at *
  omega

@[simp] theorem length_contents (b : CircularBuffer α) : b.contents.length = b.size := by
  rw [contents, List.length_take, length_rotated]
  exact Nat.min_eq_left b.size_le_capacity

theorem getElem?_rotated {i : Nat} (h : i < b.capacity) :
    b.rotated[i]? = b.storage[b.cell i]? := by
  have hfirst := b.first_le
  unfold rotated cell wrap
  unfold capacity at *
  rw [List.getElem?_append, List.length_drop]
  split
  · rw [if_pos (by omega), List.getElem?_drop]
  · rw [if_neg (by omega), List.getElem?_take_of_lt (by omega)]
    congr 1
    omega

theorem getElem?_contents {i : Nat} (h : i < b.size) : b.contents[i]? = b.storage[b.cell i]? := by
  rw [contents, List.getElem?_take_of_lt h]
  exact getElem?_rotated (Nat.lt_of_lt_of_le h b.size_le_capacity)

/-- Two contents agree if they are as long and agree at each position. -/
theorem contents_eq {xs : List α} (hlen : b.size = xs.length)
    (h : ∀ i, i < b.size → b.storage[b.cell i]? = xs[i]?) : b.contents = xs := by
  refine List.ext_getElem? fun i => ?_
  by_cases hi : i < b.size
  · rw [getElem?_contents hi, h i hi]
  · rw [List.getElem?_eq_none (by rw [length_contents]; omega),
      List.getElem?_eq_none (by omega)]

/-! ## Operations -/

/-- `push_back`: in a full buffer it takes the place of the first element. -/
def pushBack (v : α) (b : CircularBuffer α) : CircularBuffer α :=
  if h : b.size < b.capacity then
    { storage := b.storage.set b.last v
      first := b.first
      size := b.size + 1
      first_lt := by rw [List.length_set]; exact b.first_lt
      size_le := by rw [List.length_set]; exact h }
  else if h : b.size = 0 then b
  else
    { storage := b.storage.set b.first v
      first := b.wrap (b.first + 1)
      size := b.size
      first_lt := by
        rw [List.length_set]
        exact b.wrap_first (Nat.le_trans (Nat.pos_of_ne_zero h) b.size_le_capacity)
      size_le := by rw [List.length_set]; exact b.size_le }

/-- One `push_back` after the other. -/
def append (vs : List α) (b : CircularBuffer α) : CircularBuffer α :=
  vs.foldl (fun b v => b.pushBack v) b

/-- `erase_begin(n)`, which asks for `n` elements to be there. -/
def eraseBegin (n : Nat) (b : CircularBuffer α) (h : n ≤ b.size) : CircularBuffer α where
  storage := b.storage
  first := b.wrap (b.first + n)
  size := b.size - n
  first_lt := b.wrap_first (Nat.le_trans h b.size_le_capacity)
  size_le := Nat.le_trans (Nat.sub_le _ _) b.size_le

/-- `linearize()`: the pointer it returns, and the buffer with its content in
one piece. For an empty buffer the pointer is null, and no cell is reached
through it. -/
def linearize (b : CircularBuffer α) : Nat × CircularBuffer α :=
  if b.size = 0 then (0, b)
  else if b.first < b.last ∨ b.last = 0 then (b.first, b)
  else
    (0, { storage := b.rotated
          first := 0
          size := b.size
          first_lt := .inl rfl
          size_le := by rw [length_rotated]; exact b.size_le })

section fill

variable [Inhabited α]

/-- `circular_buffer(n)` -/
def empty (n : Nat) : CircularBuffer α where
  storage := List.replicate n default
  first := 0
  size := 0
  first_lt := .inl rfl
  size_le := Nat.zero_le _

/-- `set_capacity(n)`: another storage, with the content at its start. -/
def setCapacity (n : Nat) (b : CircularBuffer α) : CircularBuffer α :=
  if n = b.capacity then b
  else
    { storage := b.contents.take n ++ List.replicate (n - min n b.size) default
      first := 0
      size := min n b.size
      first_lt := .inl rfl
      size_le := by simp }

/-- `resize(n)`: elements leave at the end, or new ones join there. -/
def resize (n : Nat) (b : CircularBuffer α) : CircularBuffer α :=
  if h : n ≤ b.size then { b with size := n, size_le := Nat.le_trans h b.size_le }
  else (if b.capacity < n then b.setCapacity n else b).append (List.replicate (n - b.size) default)

end fill

/-! ### Adding at the end -/

section pushBack

variable {v : α}

theorem pushBack_eq (h : b.size < b.capacity) :
    (b.pushBack v).storage = b.storage.set b.last v ∧ (b.pushBack v).first = b.first ∧
      (b.pushBack v).size = b.size + 1 := by
  rw [pushBack, dif_pos h]
  exact ⟨rfl, rfl, rfl⟩

theorem capacity_pushBack (b : CircularBuffer α) (v : α) :
    (b.pushBack v).capacity = b.capacity := by
  unfold pushBack capacity
  split
  · exact List.length_set
  · split
    · rfl
    · exact List.length_set

/-- A new element stays in its cell, and the other cells stay as they are. -/
theorem cell_pushBack (h : b.size < b.capacity) (i : Nat) : (b.pushBack v).cell i = b.cell i := by
  rw [cell, cell, wrap, wrap, capacity_pushBack, (pushBack_eq h).2.1]

theorem contents_pushBack (h : b.size < b.capacity) :
    (b.pushBack v).contents = b.contents ++ [v] := by
  obtain ⟨hstorage, _, hsize⟩ := pushBack_eq (v := v) h
  refine contents_eq (by simp [hsize]) fun i hi => ?_
  rw [cell_pushBack h, hstorage]
  by_cases hlast : i = b.size
  · -- the position behind the content is the cell that is set
    subst hlast
    rw [List.getElem?_append_right (by simp), length_contents, Nat.sub_self]
    exact List.getElem?_set_self (b.cell_lt h)
  · have hi : i < b.size := by omega
    rw [List.getElem?_append_left (by simpa using hi), getElem?_contents hi]
    refine List.getElem?_set_ne fun heq => hlast ?_
    exact (cell_inj h (Nat.lt_trans hi h) heq).symm

end pushBack

/-! ### Adding several -/

section append

variable {vs : List α}

theorem append_cons (b : CircularBuffer α) (v : α) (vs : List α) :
    b.append (v :: vs) = (b.pushBack v).append vs := rfl

theorem capacity_append (b : CircularBuffer α) (vs : List α) :
    (b.append vs).capacity = b.capacity := by
  induction vs generalizing b with
  | nil => rfl
  | cons v vs ih => rw [append_cons, ih, capacity_pushBack]

theorem append_eq (vs : List α) (h : b.size + vs.length ≤ b.capacity) :
    (b.append vs).first = b.first ∧ (b.append vs).size = b.size + vs.length ∧
      (b.append vs).contents = b.contents ++ vs := by
  induction vs generalizing b with
  | nil => exact ⟨rfl, rfl, (List.append_nil _).symm⟩
  | cons v vs ih =>
    have hlen : (v :: vs).length = vs.length + 1 := rfl
    have hfree : b.size < b.capacity := by omega
    obtain ⟨_, hfirst, hsize⟩ := pushBack_eq (v := v) hfree
    obtain ⟨hf, hs, hc⟩ := ih (b := b.pushBack v) (by rw [capacity_pushBack]; omega)
    rw [append_cons]
    refine ⟨hf.trans hfirst, by omega, ?_⟩
    rw [hc, contents_pushBack hfree, List.append_assoc]
    rfl

end append

/-! ### Moving the content -/

theorem capacity_linearize (b : CircularBuffer α) : b.linearize.2.capacity = b.capacity := by
  unfold linearize
  split
  · rfl
  · split
    · rfl
    · exact b.length_rotated

theorem size_linearize (b : CircularBuffer α) : b.linearize.2.size = b.size := by
  unfold linearize
  split
  · rfl
  · split <;> rfl

theorem contents_linearize (b : CircularBuffer α) : b.linearize.2.contents = b.contents := by
  unfold linearize
  split
  · rfl
  · split
    · rfl
    · simp [contents, rotated]

/-- The pointer is to the first element, and none of them is behind the end. -/
theorem linearize_spec (h : b.size ≠ 0) :
    b.linearize.1 = b.linearize.2.first ∧ b.linearize.2.first + b.size ≤ b.capacity := by
  unfold linearize
  rw [if_neg h]
  split
  · rename_i hlinear
    refine ⟨rfl, ?_⟩
    -- the end of the content is behind its start, or at the end of the storage
    have := b.first_le
    have := b.size_le_capacity
    show b.first + b.size ≤ b.capacity
    unfold last wrap at hlinear
    split at hlinear <;> omega
  · exact ⟨rfl, by simpa using b.size_le_capacity⟩

section fill

variable [Inhabited α] {n : Nat}

theorem capacity_empty (n : Nat) : (empty n : CircularBuffer α).capacity = n :=
  List.length_replicate

theorem capacity_setCapacity (n : Nat) (b : CircularBuffer α) :
    (b.setCapacity n).capacity = n := by
  unfold setCapacity
  split
  · exact (Eq.symm ‹_›)
  · simp only [capacity, List.length_append, List.length_take, length_contents,
      List.length_replicate]
    omega

theorem size_setCapacity (h : b.size ≤ n) : (b.setCapacity n).size = b.size := by
  unfold setCapacity
  split
  · rfl
  · exact Nat.min_eq_right h

theorem contents_setCapacity (h : b.size ≤ n) : (b.setCapacity n).contents = b.contents := by
  unfold setCapacity
  split
  · rfl
  · have hall : b.contents.take n = b.contents := List.take_of_length_le (by simpa using h)
    rw [contents, rotated]
    simp only [List.drop_zero, List.take_zero, List.append_nil, hall]
    exact List.take_left' (by simp [h])

theorem resize_eq (hgrow : b.size ≤ n) (hfits : n ≤ b.capacity) :
    b.resize n = b.append (List.replicate (n - b.size) default) := by
  unfold resize
  split
  · obtain rfl : n = b.size := by omega
    rw [Nat.sub_self]
    rfl
  · rw [if_neg (by omega)]

end fill

/-! ### Storing from outside -/

/-- A socket stores `vs` in the cells from `start` on. -/
def store (start : Nat) (vs : List α) (b : CircularBuffer α) : CircularBuffer α where
  storage := overwrite start vs b.storage
  first := b.first
  size := b.size
  first_lt := by rw [length_overwrite]; exact b.first_lt
  size_le := by rw [length_overwrite]; exact b.size_le

@[simp] theorem capacity_store (start : Nat) (vs : List α) (b : CircularBuffer α) :
    (b.store start vs).capacity = b.capacity := length_overwrite _ _ _

theorem cell_store (start : Nat) (vs : List α) (b : CircularBuffer α) (i : Nat) :
    (b.store start vs).cell i = b.cell i := by
  unfold cell wrap
  rw [capacity_store]
  rfl

theorem cellsAt_store (start : Nat) (vs : List α) (b : CircularBuffer α) (i n : Nat) :
    (b.store start vs).cellsAt i n = b.cellsAt i n :=
  List.map_congr_left fun k _ => cell_store start vs b k

/-- What is stored in the cells of some positions takes the place of their elements. -/
theorem contents_store {start : Nat} {front vs junk back : List α}
    (hcontents : b.contents = front ++ junk ++ back) (hlen : vs.length = junk.length)
    (hcells : List.range' start vs.length = b.cellsAt front.length vs.length) :
    (b.store start vs).contents = front ++ vs ++ back := by
  have hsize : b.size = front.length + vs.length + back.length := by
    rw [← length_contents, hcontents, hlen, List.length_append, List.length_append]
  have hcap := b.size_le_capacity
  have hcell : ∀ k, k < vs.length → b.cell (front.length + k) = start + k := by
    intro k hk
    have h := congrArg (·[k]?) hcells
    simpa [cellsAt, List.getElem?_range', hk, eq_comm] using h
  refine contents_eq (b := b.store start vs) ?_ fun i hi => ?_
  · rw [List.length_append, List.length_append]
    exact hsize
  have hi : i < b.size := hi
  rw [cell_store]
  show (overwrite start vs b.storage)[b.cell i]? = _
  by_cases hin : front.length ≤ i ∧ i < front.length + vs.length
  · -- one of the positions that are stored to
    obtain ⟨k, rfl⟩ := Nat.exists_eq_add_of_le hin.1
    have hk : k < vs.length := by omega
    have hend : start + vs.length ≤ b.storage.length := by
      have hlast := b.cell_lt (i := front.length + (vs.length - 1)) (by omega)
      rw [hcell _ (by omega)] at hlast
      unfold capacity at hlast
      omega
    rw [hcell k hk, getElem?_overwrite hk hend, List.append_assoc,
      List.getElem?_append_right (by omega), List.getElem?_append_left (by omega)]
    congr 1
    omega
  · have hout : b.cell i < start ∨ start + vs.length ≤ b.cell i := by
      by_contra hbetween
      obtain ⟨k, hk⟩ := Nat.exists_eq_add_of_le (show start ≤ b.cell i by omega)
      have heq := (hcell k (by omega)).trans hk.symm
      have := cell_inj (by omega) (by omega) heq
      omega
    rw [getElem?_overwrite_of_not_mem hout, ← getElem?_contents hi, hcontents]
    rcases Nat.lt_or_ge i front.length with hlt | hge
    · rw [List.append_assoc, List.append_assoc, List.getElem?_append_left hlt,
        List.getElem?_append_left hlt]
    · rw [List.getElem?_append_right (by rw [List.length_append]; omega),
        List.getElem?_append_right (by rw [List.length_append]; omega)]
      simp [hlen]

/-! ### Erasing at the front -/

theorem cell_eraseBegin {n i : Nat} (h : n ≤ b.size) (hi : n + i < b.capacity) :
    (b.eraseBegin n h).cell i = b.cell (n + i) := by
  have := b.first_le
  show b.wrap (b.wrap (b.first + n) + i) = b.wrap (b.first + (n + i))
  unfold wrap
  split <;> split <;> split <;> omega

theorem contents_eraseBegin {n : Nat} (h : n ≤ b.size) :
    (b.eraseBegin n h).contents = b.contents.drop n := by
  have hcap := b.size_le_capacity
  have hsize : (b.eraseBegin n h).size = b.size - n := rfl
  refine contents_eq (by simp [hsize]) fun i hi => ?_
  rw [hsize] at hi
  rw [cell_eraseBegin h (by omega), List.getElem?_drop, getElem?_contents (by omega)]
  rfl

end CircularBuffer

end AsioProtocols
