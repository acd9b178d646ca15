import Mathlib.Data.List.Forall2
import AsioProtocols.Base.Machine
import AsioProtocols.Buffer.Reading

/-!
# A buffer between a socket and a reader

`linear_writable` gives a socket an area to fill, which it may do in several
pieces; `push_back` adds an element behind it; and a reader takes what
`read_buffers` shows it and erases as much. The buffer has one area under way
at a time, because a second `linear_writable` may move the first; and as long as it
is not filled, the reader asks only for content in front of it, because
`read_buffers` shows reserved slots like any other (`Careful`).

To the outside the buffer is a log of slots. A slot is made by a reservation
and filled later, or made and filled at once; the reader goes through the slots
from the front. `fifo_of_run`: what was read is the front of the log, slot by
slot, and the ring holds the rest, so nothing is lost, doubled or read before
it is filled. `Window` is the invariant, which says where the area is.
-/

namespace AsioProtocols

variable {φ α : Type*}

/-! ## The log -/

/-- Fills the first slots that are open. -/
def fillOpen : List α → List (Option α) → List (Option α)
  | [], slots => slots
  | _ :: _, [] => []
  | v :: vs, none :: slots => some v :: fillOpen vs slots
  | v :: vs, some x :: slots => some x :: fillOpen (v :: vs) slots

@[simp] theorem fillOpen_nil (slots : List (Option α)) : fillOpen [] slots = slots := by
  cases slots <;> rfl

theorem fillOpen_filled (vs done : List α) (slots : List (Option α)) :
    fillOpen vs (done.map some ++ slots) = done.map some ++ fillOpen vs slots := by
  induction done with
  | nil => rfl
  | cons x done ih =>
    cases vs with
    | nil => rw [fillOpen_nil, fillOpen_nil]
    | cons v vs => exact congrArg (some x :: ·) ih

theorem fillOpen_open (vs : List α) (n : Nat) (slots : List (Option α)) :
    fillOpen vs (List.replicate (vs.length + n) none ++ slots) =
      vs.map some ++ (List.replicate n none ++ slots) := by
  induction vs with
  | nil => simp
  | cons v vs ih =>
    rw [List.length_cons, Nat.add_right_comm, List.replicate_succ]
    exact congrArg (some v :: ·) ih

/-- A slot and the element in its place: an open slot says nothing about it. -/
def Agrees (slot : Option α) (x : α) : Prop := ∀ v, slot = some v → x = v

theorem agrees_filled (done : List α) : List.Forall₂ Agrees (done.map some) done := by
  induction done with
  | nil => exact .nil
  | cons x done ih => exact .cons (fun v hv => Option.some.inj hv) ih

theorem agrees_open (junk : List α) :
    List.Forall₂ Agrees (List.replicate junk.length none) junk := by
  induction junk with
  | nil => exact .nil
  | cons x junk ih => exact .cons (fun v hv => nomatch hv) ih

/-! ## The buffer in use -/

/-- The buffer, the part of the area under way that is not filled, the log, and what the
reader has taken. -/
structure BufferFifo (φ α : Type*) where
  buffer : Buffer φ α
  area : Area
  log : List (Option α)
  taken : List α

/-- What happens to the buffer: an area is asked for, the socket stores some elements in
what is left of it, an element is added, or the reader takes what `read_buffers(target)`
shows it. -/
inductive FifoEvent (α : Type*)
  | linearWritable (target : Nat)
  | fill (vs : List α)
  | pushBack (v : α)
  | consume (target : Nat)

namespace BufferFifo

def init [Inhabited α] (size : Nat) : BufferFifo φ α where
  buffer := .init size
  area := ⟨0, 0⟩
  log := []
  taken := []

/-- The slots in front that are filled and not yet taken. -/
def filled (s : BufferFifo φ α) : Nat :=
  ((s.log.drop s.taken.length).takeWhile Option.isSome).length

def linearWritable [Inhabited α] (target : Nat) (s : BufferFifo φ α) : BufferFifo φ α :=
  let (area, b) := s.buffer.linearWritable target
  { s with buffer := b, area := area, log := s.log ++ List.replicate area.length none }

/-- The socket stores at the start of the area. -/
def fill (vs : List α) (s : BufferFifo φ α) : Option (BufferFifo φ α) :=
  if vs.length ≤ s.area.length then
    some { s with
      buffer := { s.buffer with
        ring := s.buffer.ring.store s.area.start vs
        capacity_eq := (CircularBuffer.capacity_store _ _ _).trans s.buffer.capacity_eq }
      area := ⟨s.area.start + vs.length, s.area.length - vs.length⟩
      log := fillOpen vs s.log }
  else none

def pushBack (v : α) (s : BufferFifo φ α) : BufferFifo φ α :=
  { s with buffer := s.buffer.pushBack v, log := s.log ++ [some v] }

/-- `read_buffers`, and then `erase_begin` of all that it showed. -/
def consume [Inhabited α] (target : Nat) (s : BufferFifo φ α) : Option (BufferFifo φ α) :=
  let (areas, b) := s.buffer.readBuffers target
  let bytes := readAll b.ring.storage areas
  (b.eraseBegin bytes.length).map fun b => { s with buffer := b, taken := s.taken ++ bytes }

def step [Inhabited α] (s : BufferFifo φ α) : FifoEvent α → Option (BufferFifo φ α)
  | .linearWritable target => some (s.linearWritable target)
  | .fill vs => s.fill vs
  | .pushBack v => some (s.pushBack v)
  | .consume target => s.consume target

/-- How the buffer is used: one area at a time, no more elements than there is room for,
and while an area is under way the reader asks only for what is in front of it. -/
def Careful (s : BufferFifo φ α) : FifoEvent α → Prop
  | .linearWritable _ => s.area.length = 0
  | .fill _ => True
  | .pushBack _ => s.buffer.size < s.buffer.maxSize
  | .consume target => s.area.length = 0 ∨ 0 < target ∧ target ≤ s.filled

instance (s : BufferFifo φ α) (e : FifoEvent α) : Decidable (Careful s e) :=
  match e with
  | .linearWritable _ => inferInstanceAs (Decidable (s.area.length = 0))
  | .fill _ => inferInstanceAs (Decidable True)
  | .pushBack _ => inferInstanceAs (Decidable (s.buffer.size < s.buffer.maxSize))
  | .consume target =>
    inferInstanceAs (Decidable (s.area.length = 0 ∨ 0 < target ∧ target ≤ s.filled))

/-- **First in, first out.** What was taken is the front of the log, every slot of it
filled, and the ring has an element for each slot behind. -/
structure Fifo (s : BufferFifo φ α) : Prop where
  taken : s.log.take s.taken.length = s.taken.map some
  kept : List.Forall₂ Agrees (s.log.drop s.taken.length) s.buffer.ring.contents

/-- **The invariant.** The open slots are those of the area, and its cells are theirs. -/
def Window (s : BufferFifo φ α) (front junk back : List α) : Prop :=
  s.log = (s.taken ++ front).map some ++ (List.replicate junk.length none ++ back.map some) ∧
  s.buffer.ring.contents = front ++ junk ++ back ∧
  s.area.cells = s.buffer.ring.cellsAt front.length junk.length

/-! ## One event -/

variable {s s' : BufferFifo φ α} {front junk back : List α}

theorem Window.fifo (h : Window s front junk back) : Fifo s := by
  obtain ⟨hlog, hcontents, -⟩ := h
  rw [List.map_append, List.append_assoc] at hlog
  have hlen : s.taken.length = (s.taken.map (some : α → Option α)).length := by simp
  refine ⟨?_, ?_⟩
  · rw [hlog, hlen, List.take_left]
  · rw [hlog, hlen, List.drop_left, hcontents, List.append_assoc]
    exact List.rel_append (agrees_filled front)
      (List.rel_append (agrees_open junk) (agrees_filled back))

theorem Window.area_length (h : Window s front junk back) : junk.length = s.area.length := by
  have hlen := congrArg List.length h.2.2
  rw [Area.length_cells, CircularBuffer.length_cellsAt] at hlen
  exact hlen.symm

/-- Where no area is under way, everything in the ring is filled. -/
theorem Window.closed (h : Window s front junk back) (hnone : s.area.length = 0) :
    s.log = (s.taken ++ s.buffer.ring.contents).map some ∧ junk = [] := by
  obtain rfl : junk = [] := List.eq_nil_of_length_eq_zero (h.area_length.trans hnone)
  obtain ⟨hlog, hcontents, -⟩ := h
  refine ⟨?_, rfl⟩
  rw [hlog, hcontents]
  simp

theorem Window.linearWritable [Inhabited α] (h : Window s front junk back) (hnone : s.area.length = 0)
    (target : Nat) : ∃ front junk back, Window (s.linearWritable target) front junk back := by
  obtain ⟨hlog, -⟩ := h.closed hnone
  have hres := s.buffer.linearReserves target
  have hcells : (s.buffer.linearWritable target).1.cells =
      (s.buffer.linearWritable target).2.ring.cellsAt s.buffer.size (s.buffer.want target) := by
    simpa [cellsOf] using hres.cells
  have hwant : (s.buffer.linearWritable target).1.length = s.buffer.want target := by
    simpa using congrArg List.length hcells
  have hjunk : ((s.buffer.linearWritable target).2.ring.contents.drop s.buffer.size).length =
      s.buffer.want target := by
    rw [List.length_drop, CircularBuffer.length_contents]
    have := hres.size
    unfold Buffer.size at this ⊢
    omega
  refine ⟨s.buffer.ring.contents,
    (s.buffer.linearWritable target).2.ring.contents.drop s.buffer.size, [], ?_, ?_, ?_⟩
  · show s.log ++ List.replicate (s.buffer.linearWritable target).1.length none = _
    rw [hlog, hjunk, hwant, List.map_nil, List.append_nil]
    rfl
  · show (s.buffer.linearWritable target).2.ring.contents = _
    rw [List.append_nil, ← hres.content, List.take_append_drop]
  · show (s.buffer.linearWritable target).1.cells = _
    rw [hjunk, hcells, CircularBuffer.length_contents]
    rfl

/-- What is stored takes the front of the area. -/
theorem Window.fill (h : Window s front junk back) {vs : List α} (hstep : s.fill vs = some s') :
    Window s' (front ++ vs) (junk.drop vs.length) back := by
  obtain ⟨hle, hs'⟩ := Option.ite_none_right_eq_some.mp hstep
  obtain rfl := Option.some.inj hs'
  have hjunk := h.area_length
  obtain ⟨hlog, hcontents, hcells⟩ := h
  obtain ⟨n, hn⟩ := Nat.exists_eq_add_of_le (hjunk.symm ▸ hle)
  -- the cells of the area, those stored to first
  have hsplit : List.range' s.area.start vs.length ++
      List.range' (s.area.start + vs.length) n =
      s.buffer.ring.cellsAt front.length vs.length ++
        s.buffer.ring.cellsAt (front.length + vs.length) n := by
    rw [← CircularBuffer.cellsAt_add, List.range'_append_1, ← hn, ← hcells, hjunk]
    rfl
  obtain ⟨hfirst, hrest⟩ := List.append_inj hsplit (by simp)
  refine ⟨?_, ?_, ?_⟩
  · show fillOpen vs s.log = _
    rw [hlog, fillOpen_filled, hn, fillOpen_open, List.length_drop, hn, Nat.add_sub_cancel_left]
    simp
  · show (s.buffer.ring.store s.area.start vs).contents = _
    rw [List.append_assoc (front ++ vs)]
    have hold : s.buffer.ring.contents =
        front ++ junk.take vs.length ++ (junk.drop vs.length ++ back) := by
      rw [hcontents, List.append_assoc, List.append_assoc, ← List.append_assoc (junk.take _),
        List.take_append_drop]
    refine CircularBuffer.contents_store hold ?_ hfirst
    rw [List.length_take, hn]
    omega
  · show List.range' (s.area.start + vs.length) (s.area.length - vs.length) = _
    rw [List.length_drop, List.length_append, ← hjunk, hn, Nat.add_sub_cancel_left, hrest]
    exact (s.buffer.ring.cellsAt_store s.area.start vs _ _).symm

/-- A new element leaves the cells of the area where they are. -/
theorem Window.pushBack (h : Window s front junk back) (hroom : s.buffer.size < s.buffer.maxSize)
    (v : α) : Window (s.pushBack v) front junk (back ++ [v]) := by
  have hfree : s.buffer.ring.size < s.buffer.ring.capacity := s.buffer.capacity_eq ▸ hroom
  obtain ⟨hlog, hcontents, hcells⟩ := h
  refine ⟨?_, ?_, ?_⟩
  · show s.log ++ [some v] = _
    rw [hlog]
    simp [BufferFifo.pushBack]
  · show (s.buffer.ring.pushBack v).contents = _
    rw [CircularBuffer.contents_pushBack hfree, hcontents, List.append_assoc]
  · show s.area.cells = (s.buffer.ring.pushBack v).cellsAt front.length junk.length
    rw [hcells]
    exact List.map_congr_left fun i _ => (CircularBuffer.cell_pushBack hfree i).symm

/-- The reader is shown the front of the content, and that much is erased. -/
theorem consume_inv [Inhabited α] {target : Nat} (hstep : s.consume target = some s') :
    ∃ n, n = min (if target = 0 then s.buffer.maxSize else target) s.buffer.ring.size ∧
      s'.log = s.log ∧ s'.area = s.area ∧
      s'.taken = s.taken ++ s.buffer.ring.contents.take n ∧
      ∃ hle : n ≤ (s.buffer.growTo target).2.ring.size,
        s'.buffer.ring = (s.buffer.growTo target).2.ring.eraseBegin n hle := by
  have hbytes := s.buffer.read_readBuffers target
  generalize hlimit : (if target = 0 then s.buffer.maxSize else target) = limit at *
  have hlen : (s.buffer.ring.contents.take limit).length = min limit s.buffer.ring.size := by simp
  simp only [consume] at hstep
  rw [hbytes, hlen] at hstep
  obtain ⟨b, hb, rfl⟩ := Option.map_eq_some_iff.mp hstep
  unfold Buffer.eraseBegin at hb
  split at hb
  · rename_i hle
    obtain rfl := Option.some.inj hb
    refine ⟨_, rfl, rfl, rfl, ?_, hle, rfl⟩
    show s.taken ++ s.buffer.ring.contents.take limit = _
    rw [List.take_eq_take_min, CircularBuffer.length_contents]
  · cases hb

/-- What is in front of the area is what is filled. -/
theorem Window.filled_eq (h : Window s front junk back) (hsome : s.area.length ≠ 0) :
    s.filled = front.length := by
  have hjunk := h.area_length
  obtain ⟨hlog, -⟩ := h
  obtain ⟨n, hn⟩ := Nat.exists_eq_succ_of_ne_zero (hjunk ▸ hsome)
  have hlen : s.taken.length = (s.taken.map (some : α → Option α)).length := by simp
  rw [filled, hlog, List.map_append, List.append_assoc, hlen, List.drop_left, hn,
    List.replicate_succ, List.cons_append, List.takeWhile_append_of_pos (by simp)]
  simp

/-- **The reader takes what is filled**, and the cells of the area stay. -/
theorem Window.consume [Inhabited α] (h : Window s front junk back) {target : Nat}
    (hcareful : Careful s (.consume target)) (hstep : s.consume target = some s') :
    ∃ front junk back, Window s' front junk back := by
  obtain ⟨n, hn, hlog, harea, htaken, hle, hring⟩ := consume_inv hstep
  have hcontents' : s'.buffer.ring.contents = s.buffer.ring.contents.drop n := by
    rw [hring, CircularBuffer.contents_eraseBegin, (s.buffer.growTo_content target).2]
  by_cases hnone : s.area.length = 0
  · obtain ⟨hslots, -⟩ := h.closed hnone
    refine ⟨s'.buffer.ring.contents, [], [], ?_, by simp, ?_⟩
    · rw [hlog, hslots, htaken, hcontents', List.append_assoc, List.take_append_drop]
      simp
    · rw [harea, Area.cells, hnone]
      rfl
  · obtain ⟨hpos, hfilled⟩ := hcareful.resolve_left hnone
    rw [h.filled_eq hnone] at hfilled
    have hsize : s.buffer.ring.size = front.length + junk.length + back.length := by
      rw [← CircularBuffer.length_contents, h.2.1, List.length_append, List.length_append]
    have hmax := s.buffer.size_le
    unfold Buffer.size at hmax
    obtain rfl : n = target := by
      rw [hn, if_neg (by omega)]
      omega
    -- the target is within what there is, so the buffer does not grow
    simp only [Buffer.growTo_of_le (show n ≤ s.buffer.maxSize by omega)] at hle hring
    obtain ⟨hslots, hcontents, hcells⟩ := h
    have hcap := s.buffer.ring.size_le_capacity
    refine ⟨front.drop n, junk, back, ?_, ?_, ?_⟩
    · rw [hlog, hslots, htaken, hcontents, List.append_assoc, List.append_assoc front,
        List.take_append_of_le_length hfilled, List.take_append_drop]
    · rw [hcontents', hcontents, List.append_assoc, List.drop_append_of_le_length hfilled,
        List.append_assoc]
    · rw [harea, hcells, hring, List.length_drop]
      refine List.ext_getElem (by simp) fun k hk _ => ?_
      rw [CircularBuffer.length_cellsAt] at hk
      simp only [CircularBuffer.cellsAt, List.getElem_map, List.getElem_range', Nat.one_mul]
      rw [CircularBuffer.cell_eraseBegin hle (by omega)]
      congr 1
      omega

theorem Window.step [Inhabited α] (h : Window s front junk back) {e : FifoEvent α} (hcareful : Careful s e)
    (hstep : step s e = some s') : ∃ front junk back, Window s' front junk back := by
  cases e with
  | linearWritable target =>
    obtain rfl := Option.some.inj hstep
    exact h.linearWritable hcareful target
  | fill vs => exact ⟨_, _, _, h.fill hstep⟩
  | pushBack v =>
    obtain rfl := Option.some.inj hstep
    exact ⟨_, _, _, h.pushBack hcareful v⟩
  | consume target => exact h.consume hcareful hstep

/-- **The buffer is a queue** to its socket and its reader, whatever the order in which
areas are filled, elements are added and content is taken, as long as the reader asks only
for what is in front of an area under way. -/
theorem fifo_of_run [Inhabited α] {size : Nat} (run : Run step Careful (init size) s) : Fifo s := by
  have hwindow : ∃ front junk back, Window s front junk back := by
    refine run.invariant (P := fun s => ∃ front junk back, Window s front junk back)
      ⟨[], [], [], rfl, ?_, rfl⟩ ?_
    · exact List.eq_nil_of_length_eq_zero (CircularBuffer.length_contents _)
    · rintro t u e ⟨front, junk, back, h⟩ hcareful hstep
      exact h.step hcareful hstep
  obtain ⟨front, junk, back, h⟩ := hwindow
  exact h.fifo

/-- An area of three filled in two pieces, with a push behind it and the reader in between;
then an area that goes around the end of the storage. -/
theorem fifo_twoAreas : ∃ s : BufferFifo Nat Byte, s.taken = [1, 2, 3, 9] ∧
    s.log = [some 1, some 2, some 3, some 9, some 5, none] ∧ Fifo s := by
  obtain ⟨s, hexec, hs⟩ := Option.map_eq_some_iff.mp
    (show (exec (guarded step Careful) (init 4 : BufferFifo Nat Byte)
      [.linearWritable 3, .fill [1, 2], .pushBack 9, .consume 2, .fill [3], .consume 0,
        .linearWritable 2, .fill [5]]).map (fun s => (s.taken, s.log)) =
      some ([1, 2, 3, 9], [some 1, some 2, some 3, some 9, some 5, none]) by decide)
  exact ⟨s, congrArg Prod.fst hs, congrArg Prod.snd hs, fifo_of_run (.of_guarded _ hexec)⟩

end BufferFifo

end AsioProtocols
