import Mathlib.Algebra.Order.Ring.Nat
import AsioProtocols.Buffer.Calls

/-!
# What `read_buffers` exposes

`read_buffers(target)` walks the two arrays up to `target`, and the arrays hold
everything in use, reserved cells included: `read_readBuffers` says that its
areas are the first `target` bytes of the content, with nought for all of it.
`readable()` plays no part. A target beyond `max_size_` makes the buffer
larger, although the comment promises that the state is not changed.

**`exposesReadable_iff`** says in which of the reachable states, and for which
targets, the areas are what they are meant to be. `readable_of_run` is about
the difference in `readable()`, which is right unless something is erased from
inside the callback of a write, before its bytes have been added to
`write_pending_`.
-/

namespace AsioProtocols

variable {φ α : Type*}

/-- What the cells of some areas hold. -/
def readAll (storage : List α) (areas : List Area) : List α :=
  areas.flatMap (Area.read storage)

namespace Buffer

/-! ## The areas -/

theorem readArray_spec (storage : List α) (v : Area) (target : Nat) :
    readAll storage (readArray v target).1 = (v.read storage).take target ∧
      (readArray v target).2 = target - v.length := by
  unfold readArray
  by_cases hlen : v.length > 0
  · rw [if_pos hlen]
    dsimp only [readAll, Area.read]
    rw [List.flatMap_singleton, List.take_take]
    split
    · rw [Nat.min_eq_left (by omega)]
      exact ⟨rfl, by omega⟩
    · rw [Nat.min_eq_right (by omega)]
      exact ⟨rfl, rfl⟩
  · obtain ⟨start, length⟩ := v
    obtain rfl : length = 0 := by
      dsimp only at hlen
      omega
    rw [if_neg hlen]
    exact ⟨by simp [readAll, Area.read], rfl⟩

/-- The two arrays in order are the content. -/
theorem read_arrays (ring : CircularBuffer α) :
    ring.arrayOne.read ring.storage ++ ring.arrayTwo.read ring.storage = ring.contents := by
  have hfirst := ring.first_le
  have hsize := ring.size_le_capacity
  unfold Area.read CircularBuffer.contents CircularBuffer.rotated
  rw [CircularBuffer.arrayOne_length, CircularBuffer.arrayTwo_length,
    CircularBuffer.arrayOne_start, CircularBuffer.arrayTwo_start, List.drop_zero,
    List.take_append, List.length_drop, List.take_take]
  unfold CircularBuffer.capacity at *
  congr 1
  · by_cases hle : ring.size ≤ ring.storage.length - ring.first
    · rw [Nat.min_eq_left hle]
    · rw [Nat.min_eq_right (by omega), List.take_of_length_le (by simp),
        List.take_of_length_le (by simp; omega)]
  · congr 1
    omega

variable [Inhabited α] (target : Nat) (b : Buffer φ α)

/-- **The bytes of the areas** are the first of the content. -/
theorem read_readBuffers :
    readAll (b.readBuffers target).2.ring.storage (b.readBuffers target).1 =
      b.ring.contents.take (if target = 0 then b.maxSize else target) := by
  show readAll (b.growTo target).2.ring.storage
    ((readArray (b.growTo target).2.ring.arrayOne (b.growTo target).1).1 ++
      (readArray (b.growTo target).2.ring.arrayTwo
        (readArray (b.growTo target).2.ring.arrayOne (b.growTo target).1).2).1) = _
  rw [readAll, List.flatMap_append, ← readAll, ← readAll, (readArray_spec _ _ _).1,
    (readArray_spec _ _ _).1, (readArray_spec (b.growTo target).2.ring.storage _ _).2]
  have hone : ((b.growTo target).2.ring.arrayOne.read (b.growTo target).2.ring.storage).length =
      (b.growTo target).2.ring.arrayOne.length := by
    have := (b.growTo target).2.ring.first_le
    rw [Area.read, List.length_take, List.length_drop, CircularBuffer.arrayOne_length]
    unfold CircularBuffer.capacity at *
    exact Nat.min_eq_left (Nat.min_le_right _ _)
  rw [← hone, ← List.take_append, read_arrays, (growTo_content target b).2, growTo_fst]

/-- The state is left alone unless the target makes the buffer larger. -/
theorem readBuffers_snd_iff : (b.readBuffers target).2 = b ↔ target ≤ b.maxSize := by
  constructor
  · intro h
    have hmax : (b.growTo target).2.maxSize = b.maxSize := congrArg maxSize h
    rw [growTo_maxSize] at hmax
    omega
  · exact growTo_of_le

end Buffer

namespace BufferCalls

variable [Inhabited α] {s s' : BufferCalls φ α}

/-- The calls whose effect on the readable bytes is in question: `push_back`
needs room, and `erase_begin` takes what is readable. -/
def Legal (s : BufferCalls φ α) : BufferEvent φ α → Prop
  | .pushBack _ => s.buffer.size < s.buffer.maxSize
  | .eraseBegin count => count ≤ s.buffer.readable
  | _ => True

instance (s : BufferCalls φ α) (e : BufferEvent φ α) : Decidable (Legal s e) :=
  match e with
  | .pushBack _ => inferInstanceAs (Decidable (s.buffer.size < s.buffer.maxSize))
  | .eraseBegin count => inferInstanceAs (Decidable (count ≤ s.buffer.readable))
  | .write _ => inferInstanceAs (Decidable True)
  | .codeReturns _ => inferInstanceAs (Decidable True)
  | .writeComplete _ => inferInstanceAs (Decidable True)
  | .turn => inferInstanceAs (Decidable True)

/-- The bytes that `read_buffers(target)` exposes. -/
def exposed (target : Nat) (s : BufferCalls φ α) : List α :=
  readAll (s.buffer.readBuffers target).2.ring.storage (s.buffer.readBuffers target).1

/-- What `read_buffers(target)` is meant to do: it exposes the first readable
bytes, as many as it is asked for and all of them for nought; none of them is
reserved and unconfirmed; and it changes nothing. -/
structure ExposesReadable (target : Nat) (s : BufferCalls φ α) : Prop where
  readable : s.buffer.writePending ≤ s.buffer.size
  bytes : s.exposed target = s.buffer.ring.contents.take
    (if target = 0 then s.buffer.readable else min target s.buffer.readable)
  confirmed : true ∉ s.unconfirmed.take (s.exposed target).length
  unchanged : (s.buffer.readBuffers target).2 = s.buffer

/-! ## The cells in use -/

/-- The history has an entry for each cell in use. -/
def Tracked (s : BufferCalls φ α) : Prop := s.unconfirmed.length = s.buffer.ring.size

theorem Tracked.step {e : BufferEvent φ α} (h : Tracked s) (hok : Legal s e)
    (hstep : step s e = some s') : Tracked s' := by
  unfold Tracked at h ⊢
  cases e with
  | write size =>
    obtain rfl := step_write hstep
    show (s.unconfirmed ++ List.replicate (s.buffer.want size) true).length =
      (s.buffer.reserve size).2.ring.size
    rw [Buffer.reserve_content.1, List.length_append, List.length_replicate, h]
  | codeReturns f =>
    obtain ⟨_, _, _, rfl⟩ := step_codeReturns hstep
    exact h
  | writeComplete bytes =>
    rcases step_writeComplete hstep with ⟨_, rfl⟩ | ⟨_, rfl⟩
    · exact (length_confirm bytes s.unconfirmed).trans h
    · exact h
  | turn =>
    obtain ⟨_, _, _, _, hturn⟩ := step_turn hstep
    rcases hturn with ⟨_, _, _, _, _, _, rfl⟩ | ⟨_, _, _, _, _, _, rfl⟩ | ⟨_, rfl⟩ | ⟨_, _, rfl⟩
    · exact h
    · exact h
    · exact h
    · exact h
  | pushBack v =>
    obtain rfl := step_pushBack hstep
    have hroom : s.buffer.size < s.buffer.maxSize := hok
    have hfree : s.buffer.ring.size < s.buffer.ring.capacity := s.buffer.capacity_eq ▸ hroom
    show (if s.buffer.size < s.buffer.maxSize then s.unconfirmed ++ [false]
      else (s.unconfirmed ++ [false]).tail).length = (s.buffer.ring.pushBack v).size
    rw [if_pos hroom, (CircularBuffer.pushBack_eq hfree).2.2, List.length_append, h]
    rfl
  | eraseBegin count =>
    obtain ⟨hle, rfl⟩ := step_eraseBegin hstep
    show (s.unconfirmed.drop count).length = s.buffer.ring.size - count
    rw [List.length_drop, h]

theorem tracked_of_run {size : Nat} (run : Run step Legal (init size) s) : Tracked s :=
  run.invariant rfl fun h hok hstep => h.step hok hstep

/-! ## What is exposed -/

theorem exposed_eq (target : Nat) (s : BufferCalls φ α) :
    s.exposed target =
      s.buffer.ring.contents.take (if target = 0 then s.buffer.size else target) := by
  rw [exposed, Buffer.read_readBuffers]
  by_cases hzero : target = 0
  · -- all of `max_size_` is at least all there is
    have := s.buffer.size_le
    unfold Buffer.size at this
    rw [if_pos hzero, if_pos hzero, List.take_of_length_le (by simpa using this)]
    exact (List.take_of_length_le (by simp [Buffer.size])).symm
  · rw [if_neg hzero, if_neg hzero]

/-- **What `read_buffers` exposes is right** exactly if the target is within
`max_size_`, nothing is pending or the target is within what is readable, and
no cell up to the target is reserved and unconfirmed. -/
theorem exposesReadable_iff {size : Nat} (run : Run step Legal (init size) s) (target : Nat) :
    ExposesReadable target s ↔
      target ≤ s.buffer.maxSize ∧ s.buffer.writePending ≤ s.buffer.size ∧
        (s.buffer.writePending = 0 ∨ 0 < target ∧ target ≤ s.buffer.readable) ∧
        true ∉ s.unconfirmed.take (if target = 0 then s.buffer.size else target) := by
  have hlen : s.unconfirmed.length = s.buffer.ring.contents.length :=
    (tracked_of_run run).trans (CircularBuffer.length_contents _).symm
  have hflags : ∀ n, s.unconfirmed.take (s.buffer.ring.contents.take n).length =
      s.unconfirmed.take n := by
    intro n
    rw [List.length_take, ← hlen, ← List.take_eq_take_min]
  have hcount : ∀ m n, s.buffer.ring.contents.take m = s.buffer.ring.contents.take n ↔
      min m s.buffer.size = min n s.buffer.size := by
    intro m n
    rw [List.take_eq_take_iff, CircularBuffer.length_contents]
    rfl
  constructor
  · rintro ⟨hle, hbytes, hconfirmed, hsame⟩
    rw [exposed_eq, hcount] at hbytes
    rw [exposed_eq, hflags] at hconfirmed
    refine ⟨(Buffer.readBuffers_snd_iff target s.buffer).mp hsame, hle, ?_, hconfirmed⟩
    have hreadable : s.buffer.readable = s.buffer.size - s.buffer.writePending := if_pos hle
    rw [hreadable] at hbytes ⊢
    split at hbytes <;> omega
  · rintro ⟨hmax, hle, hpending, hconfirmed⟩
    have hreadable : s.buffer.readable = s.buffer.size - s.buffer.writePending := if_pos hle
    refine ⟨hle, ?_, ?_, (Buffer.readBuffers_snd_iff target s.buffer).mpr hmax⟩
    · rw [exposed_eq, hcount]
      rw [hreadable] at hpending ⊢
      split <;> omega
    · rw [exposed_eq, hflags]
      exact hconfirmed

/-- Two bytes pushed, and one of them asked for. -/
theorem exposesReadable_pushed : ∃ s : BufferCalls Nat Byte,
    s.exposed 1 = [7] ∧ ExposesReadable 1 s := by
  obtain ⟨s, hexec, hs⟩ := Option.map_eq_some_iff.mp
    (show (exec (guarded step Legal) (init 10 : BufferCalls Nat Byte)
      [.pushBack 7, .pushBack 8]).map (fun s => (s.buffer.maxSize, s.buffer.writePending,
        s.unconfirmed, s.exposed 1)) = some (10, 0, [false, false], [7]) by decide)
  simp only [Prod.mk.injEq] at hs
  obtain ⟨hmax, hpending, hflags, hexposed⟩ := hs
  refine ⟨s, hexposed, (exposesReadable_iff (.of_guarded _ hexec) 1).mpr ?_⟩
  refine ⟨by omega, by omega, .inl hpending, ?_⟩
  rw [hflags, if_neg (by decide)]
  decide

/-- Four bytes reserved in an empty buffer are exposed. -/
theorem reserved_not_exposesReadable :
    ¬ ∀ s : BufferCalls Nat Byte, Run step Legal (init 10) s → ExposesReadable 0 s := by
  intro h
  obtain ⟨s, hexec, hs⟩ := Option.map_eq_some_iff.mp
    (show (exec (guarded step Legal) (init 10 : BufferCalls Nat Byte)
      [.write 4, .codeReturns 0]).map (fun s => (s.unconfirmed, s.exposed 0)) =
        some ([true, true, true, true], [0, 0, 0, 0]) by decide)
  simp only [Prod.mk.injEq] at hs
  obtain ⟨hflags, hexposed⟩ := hs
  have hconfirmed := (h s (.of_guarded _ hexec)).confirmed
  rw [hflags, hexposed] at hconfirmed
  exact absurd hconfirmed (by decide)

/-! ## The readable bytes -/

/-- What the writes under way will add to `write_pending_`. -/
def promised (calls : List BufferCall) : Nat := (calls.map BufferCall.count).sum

@[simp] theorem promised_nil : promised [] = 0 := rfl

@[simp] theorem promised_cons (c : BufferCall) (calls : List BufferCall) :
    promised (c :: calls) = c.count + promised calls := rfl

theorem promised_eq_zero {calls : List BufferCall}
    (h : calls.all (fun c => !c.isWrite) = true) : promised calls = 0 := by
  induction calls with
  | nil => rfl
  | cons c calls ih =>
    obtain ⟨hc, hrest⟩ : c.isWrite = false ∧ calls.all (fun c => !c.isWrite) = true := by
      simpa using h
    rw [promised_cons, ih hrest]
    cases c with
    | write count => cases hc
    | writeComplete bytes total => rfl

/-- Nothing is erased from inside the callback of a write. -/
def ErasesOutside (s : BufferCalls φ α) : BufferEvent φ α → Prop
  | .eraseBegin _ => s.calls.all (fun c => !c.isWrite) = true
  | _ => True

/-- All that is or will be pending is in use. -/
def Backed (s : BufferCalls φ α) : Prop :=
  s.buffer.writePending + promised s.calls ≤ s.buffer.ring.size

theorem Backed.step {e : BufferEvent φ α} (h : Backed s) (hok : Legal s e ∧ ErasesOutside s e)
    (hstep : step s e = some s') : Backed s' := by
  unfold Backed at h ⊢
  cases e with
  | write size =>
    obtain rfl := step_write hstep
    have hcount := s.buffer.totalSize_writeBuffers_le size
    show (s.buffer.reserve size).2.writePending +
      (Buffer.totalSize (s.buffer.writeBuffers size).1 + promised s.calls) ≤
        (s.buffer.reserve size).2.ring.size
    rw [(Buffer.reserve_pending _ _).1, Buffer.reserve_content.1]
    omega
  | codeReturns f =>
    obtain ⟨count, rest, hcalls, rfl⟩ := step_codeReturns hstep
    rw [hcalls, promised_cons, BufferCall.count] at h
    show s.buffer.writePending + count + promised rest ≤ s.buffer.ring.size
    omega
  | writeComplete bytes =>
    rcases step_writeComplete hstep with ⟨_, rfl⟩ | ⟨_, rfl⟩
    · show s.buffer.writePending - bytes + (0 + promised s.calls) ≤ s.buffer.ring.size
      omega
    · exact h
  | turn =>
    obtain ⟨_, _, _, hcalls, hturn⟩ := step_turn hstep
    rw [hcalls, promised_cons, BufferCall.count, Nat.zero_add] at h
    rcases hturn with ⟨_, _, _, _, _, _, rfl⟩ | ⟨_, _, _, _, _, _, rfl⟩ | ⟨_, rfl⟩ | ⟨_, _, rfl⟩
    · rw [promised_cons, BufferCall.count, Nat.zero_add]
      exact h
    · rw [promised_cons, BufferCall.count, Nat.zero_add]
      exact h
    · exact h
    · rw [hcalls, promised_cons, BufferCall.count, Nat.zero_add]
      exact h
  | pushBack v =>
    obtain rfl := step_pushBack hstep
    have hroom : s.buffer.size < s.buffer.maxSize := hok.1
    have hfree : s.buffer.ring.size < s.buffer.ring.capacity := s.buffer.capacity_eq ▸ hroom
    show s.buffer.writePending + promised s.calls ≤ (s.buffer.ring.pushBack v).size
    rw [(CircularBuffer.pushBack_eq hfree).2.2]
    omega
  | eraseBegin count =>
    obtain ⟨hle, rfl⟩ := step_eraseBegin hstep
    -- no write is under way, so what is readable is what is neither pending nor promised
    have hnone : promised s.calls = 0 := promised_eq_zero hok.2
    have hcount : count ≤ s.buffer.readable := hok.1
    have hreadable : s.buffer.readable = s.buffer.ring.size - s.buffer.writePending :=
      if_pos (show s.buffer.writePending ≤ s.buffer.ring.size by omega)
    show s.buffer.writePending + promised s.calls ≤ s.buffer.ring.size - count
    omega

/-- **`readable()` never underflows** in a run that erases nothing from inside
the callback of a write. -/
theorem readable_of_run {size : Nat}
    (run : Run step (fun s e => Legal s e ∧ ErasesOutside s e) (init size) s) :
    s.buffer.writePending ≤ s.buffer.size := by
  have h : Backed s :=
    run.invariant (Nat.le_refl 0) fun h hok hstep => h.step hok hstep
  exact Nat.le_trans (Nat.le_add_right _ _) h

end BufferCalls

end AsioProtocols
