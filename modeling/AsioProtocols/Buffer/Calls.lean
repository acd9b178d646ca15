import Mathlib.Algebra.Order.Ring.Nat
import AsioProtocols.Base.Machine
import AsioProtocols.Buffer.WriteArea

/-!
# A buffer in use

Runs of `write`, `write_complete`, `push_back` and `erase_begin`. Two of these
run code of the caller before they are through: `write` its callback, and
`write_complete` whatever waits for a future that it completes. That code may
call the buffer again, so the state has the stack of the calls that are under
way, and a step is what happens between two pieces of foreign code. The
innermost call is the only one that goes on.

Beside the buffer the state has a history: the writes that have returned, with
the sizes of their areas, the futures completed so far with their values, the
total of the completions, and for each cell in use whether it was reserved by a
write and is still unconfirmed. A `write_complete(n)` confirms the first `n`
such cells.
-/

namespace AsioProtocols

/-- A call under way: a `write` whose callback is running, which was given
`count` bytes, or the loop of `write_complete(total)` with `bytes` left. -/
inductive BufferCall
  | write (count : Nat)
  | writeComplete (bytes total : Nat)
  deriving DecidableEq

namespace BufferCall

/-- The bytes a call has still to take off the pending writes. -/
def left : BufferCall → Nat
  | write _ => 0
  | writeComplete bytes _ => bytes

/-- The bytes a call has still to put onto the pending writes. -/
def count : BufferCall → Nat
  | write count => count
  | writeComplete _ _ => 0

def isWrite : BufferCall → Bool
  | write _ => true
  | writeComplete _ _ => false

end BufferCall

structure BufferCalls (φ α : Type*) where
  buffer : Buffer φ α
  calls : List BufferCall
  aborted : Bool
  writes : List (φ × Nat)
  settled : List (φ × Nat)
  completed : Nat
  unconfirmed : List Bool

/-- What can happen next: a call, or a `return` of the code it runs. -/
inductive BufferEvent (φ α : Type*)
  | write (size : Nat)
  | codeReturns (f : φ)
  | writeComplete (bytes : Nat)
  | turn
  | pushBack (v : α)
  | eraseBegin (count : Nat)

/-- Confirms the first `n` cells that are reserved. -/
def confirm : Nat → List Bool → List Bool
  | 0, cells => cells
  | _ + 1, [] => []
  | n + 1, true :: cells => false :: confirm n cells
  | n + 1, false :: cells => false :: confirm (n + 1) cells

@[simp] theorem length_confirm (n : Nat) (cells : List Bool) :
    (confirm n cells).length = cells.length := by
  induction cells generalizing n with
  | nil => cases n <;> rfl
  | cons reserved cells ih =>
    cases n with
    | zero => rfl
    | succ n => cases reserved <;> exact congrArg (· + 1) (ih _)

namespace BufferCalls

variable {φ α : Type*} [Inhabited α]

def init (size : Nat) : BufferCalls φ α where
  buffer := .init size
  calls := []
  aborted := false
  writes := []
  settled := []
  completed := 0
  unconfirmed := []

/-! ## Steps -/

def beginWrite (size : Nat) (s : BufferCalls φ α) : BufferCalls φ α :=
  match s.buffer.beginWrite size with
  | none => { s with aborted := true }
  | some (count, b) =>
    { s with
      buffer := b
      calls := .write count :: s.calls
      unconfirmed := s.unconfirmed ++ List.replicate (s.buffer.want size) true }

def endWrite (f : φ) (s : BufferCalls φ α) : Option (BufferCalls φ α) :=
  match s.calls with
  | .write count :: rest =>
    some { s with
      buffer := s.buffer.endWrite f count
      calls := rest
      writes := s.writes ++ [(f, count)] }
  | _ => none

def beginComplete (bytes : Nat) (s : BufferCalls φ α) : BufferCalls φ α :=
  match s.buffer.beginComplete bytes with
  | none => { s with aborted := true }
  | some b =>
    { s with
      buffer := b
      calls := .writeComplete bytes bytes :: s.calls
      completed := s.completed + bytes
      unconfirmed := confirm bytes s.unconfirmed }

/-- A turn of the loop, or its end with the assertion behind it. -/
def turn (s : BufferCalls φ α) : Option (BufferCalls φ α) :=
  match s.calls with
  | .writeComplete bytes total :: rest =>
    match s.buffer.completeTurn bytes with
    | some (f, bytes, b) =>
      some { s with
        buffer := b
        calls := .writeComplete bytes total :: rest
        settled := s.settled ++ f.toList.map (·, total) }
    | none => if bytes = 0 then some { s with calls := rest } else some { s with aborted := true }
  | _ => none

/-- In a full buffer the first cell makes room. -/
def pushBack (v : α) (s : BufferCalls φ α) : BufferCalls φ α :=
  { s with
    buffer := s.buffer.pushBack v
    unconfirmed :=
      if s.buffer.size < s.buffer.maxSize then s.unconfirmed ++ [false]
      else (s.unconfirmed ++ [false]).tail }

def eraseBegin (count : Nat) (s : BufferCalls φ α) : Option (BufferCalls φ α) :=
  (s.buffer.eraseBegin count).map fun b =>
    { s with buffer := b, unconfirmed := s.unconfirmed.drop count }

def step (s : BufferCalls φ α) (e : BufferEvent φ α) : Option (BufferCalls φ α) :=
  if s.aborted = true then none
  else
    match e with
    | .write size => some (s.beginWrite size)
    | .codeReturns f => s.endWrite f
    | .writeComplete bytes => some (s.beginComplete bytes)
    | .turn => s.turn
    | .pushBack v => some (s.pushBack v)
    | .eraseBegin count => s.eraseBegin count

/-! ## Where a step leads -/

variable {s s' : BufferCalls φ α}

theorem step_not_aborted {e : BufferEvent φ α} (h : step s e = some s') : s.aborted = false := by
  unfold step at h
  split at h
  · cases h
  · simpa using ‹¬ s.aborted = true›

/-- The assertion of `write` holds: an area is never larger than what it was
asked for. -/
theorem beginWrite_eq (size : Nat) (b : Buffer φ α) :
    b.beginWrite size = some (Buffer.totalSize (b.writeBuffers size).1, (b.writeBuffers size).2) := by
  have hcount := b.totalSize_writeBuffers_le size
  refine if_pos ?_
  by_cases hsize : size = 0
  · exact .inl hsize
  · refine .inr (Nat.le_trans hcount ?_)
    unfold Buffer.want
    rw [if_neg hsize]
    exact Nat.min_le_left _ _

theorem step_write {size : Nat} (h : step s (.write size) = some s') :
    s' = { s with
      buffer := (s.buffer.writeBuffers size).2
      calls := .write (Buffer.totalSize (s.buffer.writeBuffers size).1) :: s.calls
      unconfirmed := s.unconfirmed ++ List.replicate (s.buffer.want size) true } := by
  have halive := step_not_aborted h
  rw [step, if_neg (by simp [halive])] at h
  simp only [beginWrite, beginWrite_eq] at h
  exact (Option.some.inj h).symm

theorem step_codeReturns {f : φ} (h : step s (.codeReturns f) = some s') :
    ∃ count rest, s.calls = .write count :: rest ∧
      s' = { s with
        buffer := s.buffer.endWrite f count
        calls := rest
        writes := s.writes ++ [(f, count)] } := by
  have halive := step_not_aborted h
  rw [step, if_neg (by simp [halive])] at h
  simp only [endWrite] at h
  split at h
  · rename_i count rest hcalls
    exact ⟨count, rest, hcalls, (Option.some.inj h).symm⟩
  · cases h

/-- A completion of more than is pending fails the first assertion. -/
theorem step_writeComplete {bytes : Nat} (h : step s (.writeComplete bytes) = some s') :
    (bytes ≤ s.buffer.writePending ∧
      s' = { s with
        buffer := { s.buffer with writePending := s.buffer.writePending - bytes }
        calls := .writeComplete bytes bytes :: s.calls
        completed := s.completed + bytes
        unconfirmed := confirm bytes s.unconfirmed }) ∨
    (s.buffer.writePending < bytes ∧ s' = { s with aborted := true }) := by
  have halive := step_not_aborted h
  rw [step, if_neg (by simp [halive])] at h
  have h := (Option.some.inj h).symm
  unfold beginComplete Buffer.beginComplete at h
  by_cases hle : s.buffer.writePending ≥ bytes
  · rw [if_pos hle] at h
    exact .inl ⟨hle, h⟩
  · rw [if_neg hle] at h
    exact .inr ⟨Nat.lt_of_not_le hle, h⟩

/-- A turn completes the first pending write, or loses what it has left, or
ends the loop, or fails the assertion behind it. -/
theorem step_turn (h : step s .turn = some s') :
    ∃ bytes total rest, s.calls = .writeComplete bytes total :: rest ∧
      ((∃ f n pending, 0 < bytes ∧ s.buffer.pendingWrites = (f, n) :: pending ∧ n ≤ bytes ∧
          s' = { s with
            buffer := { s.buffer with pendingWrites := pending }
            calls := .writeComplete (bytes - n) total :: rest
            settled := s.settled ++ [(f, total)] }) ∨
        (∃ f n pending, 0 < bytes ∧ s.buffer.pendingWrites = (f, n) :: pending ∧ bytes < n ∧
          s' = { s with calls := .writeComplete 0 total :: rest }) ∨
        (bytes = 0 ∧ s' = { s with calls := rest }) ∨
        (0 < bytes ∧ s.buffer.pendingWrites = [] ∧ s' = { s with aborted := true })) := by
  have halive := step_not_aborted h
  rw [step, if_neg (by simp [halive])] at h
  simp only [turn] at h
  split at h
  case h_2 => cases h
  rename_i bytes total rest hcalls
  refine ⟨bytes, total, rest, hcalls, ?_⟩
  unfold Buffer.completeTurn at h
  by_cases hbytes : bytes > 0
  · rw [if_pos hbytes] at h
    rcases hp : s.buffer.pendingWrites with _ | ⟨⟨f, n⟩, pending⟩
    · simp only [hp, if_neg (Nat.ne_of_gt hbytes)] at h
      exact .inr (.inr (.inr ⟨hbytes, rfl, (Option.some.inj h).symm⟩))
    · simp only [hp] at h
      by_cases hn : bytes ≥ n
      · rw [if_pos hn] at h
        exact .inl ⟨f, n, pending, hbytes, rfl, hn, (Option.some.inj h).symm⟩
      · rw [if_neg hn] at h
        refine .inr (.inl ⟨f, n, pending, hbytes, rfl, Nat.lt_of_not_le hn, ?_⟩)
        simpa using (Option.some.inj h).symm
  · obtain rfl : bytes = 0 := by omega
    simp only [gt_iff_lt, Nat.lt_irrefl, if_false, if_true] at h
    exact .inr (.inr (.inl ⟨rfl, (Option.some.inj h).symm⟩))

theorem step_pushBack {v : α} (h : step s (.pushBack v) = some s') : s' = s.pushBack v := by
  have halive := step_not_aborted h
  rw [step, if_neg (by simp [halive])] at h
  exact (Option.some.inj h).symm

theorem step_eraseBegin {count : Nat} (h : step s (.eraseBegin count) = some s') :
    ∃ hle : count ≤ s.buffer.ring.size,
      s' = { s with
        buffer := { s.buffer with ring := s.buffer.ring.eraseBegin count hle }
        unconfirmed := s.unconfirmed.drop count } := by
  have halive := step_not_aborted h
  rw [step, if_neg (by simp [halive])] at h
  simp only [eraseBegin, Buffer.eraseBegin] at h
  split at h
  · rename_i hle
    exact ⟨hle, (Option.some.inj h).symm⟩
  · cases h

end BufferCalls

end AsioProtocols
