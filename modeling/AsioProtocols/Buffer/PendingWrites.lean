import Mathlib.Algebra.Order.Ring.Nat
import AsioProtocols.Buffer.Calls

/-!
# When the future of a write is completed

`write_complete` takes the bytes it is told of off the pending writes, first in
first out. A write that is covered leaves the queue and its future is completed;
of a write that is covered in part the rest should stay behind, but the loop
subtracts from a copy of the entry, and the queue keeps the whole. So the books
balance as long as no turn of a loop meets an entry larger than what it has
left (`Whole`): **`accounted_of_run`**, for every run of proper calls, nested in
any way. `splitWrite_not_accounted` is a run where a write is completed in two
parts, and its future never.

The invariant is `Books`: the writes are those settled followed by those
pending, and what has been completed is the total of the settled ones and what
the loops under way have left. Once a turn has lost something the books never
balance again (`short_of_run`).
-/

namespace AsioProtocols

variable {φ α : Type*}

/-- The total of the sizes of some writes. -/
def totalOf (writes : List (φ × Nat)) : Nat := (writes.map Prod.snd).sum

/-- The writes, behind others of a total of `before`, whose bytes are complete
when `completed` bytes are. -/
def dueFrom (completed before : Nat) : List (φ × Nat) → List φ
  | [] => []
  | (f, n) :: writes =>
    if before + n ≤ completed then f :: dueFrom completed (before + n) writes
    else dueFrom completed (before + n) writes

/-- The writes `k` with `n₁ + … + nₖ ≤ completed`. -/
def due (completed : Nat) (writes : List (φ × Nat)) : List φ := dueFrom completed 0 writes

@[simp] theorem totalOf_nil : totalOf ([] : List (φ × Nat)) = 0 := rfl

@[simp] theorem totalOf_cons (w : φ × Nat) (writes : List (φ × Nat)) :
    totalOf (w :: writes) = w.2 + totalOf writes := rfl

@[simp] theorem totalOf_append (xs ys : List (φ × Nat)) :
    totalOf (xs ++ ys) = totalOf xs + totalOf ys := by
  simp [totalOf]

/-- Nothing is due once the total is exceeded. -/
theorem dueFrom_eq_nil {completed before : Nat} {writes : List (φ × Nat)}
    (hle : completed ≤ before) (hpos : ∀ w ∈ writes, 0 < w.2) :
    dueFrom completed before writes = [] := by
  induction writes generalizing before with
  | nil => rfl
  | cons w writes ih =>
    have hw : 0 < w.2 := hpos w List.mem_cons_self
    rw [dueFrom, if_neg (by omega)]
    exact ih (by omega) fun x hx => hpos x (List.mem_cons_of_mem w hx)

theorem dueFrom_append (before : Nat) (xs : List (φ × Nat)) {ys : List (φ × Nat)} (hpos : ∀ w ∈ ys, 0 < w.2) :
    dueFrom (before + totalOf xs) before (xs ++ ys) = xs.map Prod.fst := by
  induction xs generalizing before with
  | nil => exact dueFrom_eq_nil (Nat.le_refl _) hpos
  | cons x xs ih =>
    rw [List.cons_append, dueFrom, totalOf_cons, if_pos (by omega), ← Nat.add_assoc, ih,
      List.map_cons]

/-- With the total of the first writes completed, just these are due. -/
theorem due_append {xs ys : List (φ × Nat)} (hpos : ∀ w ∈ ys, 0 < w.2) :
    due (totalOf xs) (xs ++ ys) = xs.map Prod.fst := by
  have h := dueFrom_append 0 xs hpos
  rwa [Nat.zero_add] at h

namespace BufferCalls

/-- The bytes that the loops under way have still to take off. Between calls it
is nought. -/
def left (calls : List BufferCall) : Nat := (calls.map BufferCall.left).sum

@[simp] theorem left_nil : left [] = 0 := rfl

@[simp] theorem left_cons (c : BufferCall) (calls : List BufferCall) :
    left (c :: calls) = c.left + left calls := rfl

variable [Inhabited α] {s s' : BufferCalls φ α}

/-- No assertion has failed; `write_pending_` is the total of the writes less
what has been completed, and the sum of what is outstanding in the queue; and
the futures completed are those that are due, in order and once each. What a
loop under way has left is not yet taken off the queue. -/
structure Accounted (s : BufferCalls φ α) : Prop where
  alive : s.aborted = false
  pending : s.buffer.writePending + s.completed = totalOf s.writes
  outstanding : totalOf s.buffer.pendingWrites = s.buffer.writePending + left s.calls
  settled : s.settled.map Prod.fst = due (s.completed - left s.calls) s.writes

/-- A write is for something, and a completion is not made from inside the
callback of a write and does not exceed what has been reserved. -/
def Proper (s : BufferCalls φ α) : BufferEvent φ α → Prop
  | .write size => 0 < Buffer.totalSize (s.buffer.writeBuffers size).1
  | .writeComplete bytes =>
    s.calls.all (fun c => !c.isWrite) = true ∧ s.completed + bytes ≤ totalOf s.writes
  | _ => True

/-- What the innermost loop has left covers the first pending write. -/
def coversFront (s : BufferCalls φ α) : Bool :=
  match s.calls, s.buffer.pendingWrites with
  | .writeComplete bytes _ :: _, (_, n) :: _ => bytes = 0 ∨ n ≤ bytes
  | _, _ => true

/-- No turn of a loop meets an entry larger than what it has left. -/
def Whole (s : BufferCalls φ α) : BufferEvent φ α → Prop
  | .turn => s.coversFront = true
  | _ => True

instance (s : BufferCalls φ α) (e : BufferEvent φ α) : Decidable (Proper s e) :=
  match e with
  | .write size =>
    inferInstanceAs (Decidable (0 < Buffer.totalSize (s.buffer.writeBuffers size).1))
  | .writeComplete bytes =>
    inferInstanceAs (Decidable (s.calls.all (fun c => !c.isWrite) = true ∧
      s.completed + bytes ≤ totalOf s.writes))
  | .codeReturns _ => inferInstanceAs (Decidable True)
  | .turn => inferInstanceAs (Decidable True)
  | .pushBack _ => inferInstanceAs (Decidable True)
  | .eraseBegin _ => inferInstanceAs (Decidable True)

instance (s : BufferCalls φ α) (e : BufferEvent φ α) : Decidable (Whole s e) :=
  match e with
  | .turn => inferInstanceAs (Decidable (s.coversFront = true))
  | .write _ => inferInstanceAs (Decidable True)
  | .writeComplete _ => inferInstanceAs (Decidable True)
  | .codeReturns _ => inferInstanceAs (Decidable True)
  | .pushBack _ => inferInstanceAs (Decidable True)
  | .eraseBegin _ => inferInstanceAs (Decidable True)

/-! ## The books -/

/-- The queue is the writes without those settled. -/
structure Books (s : BufferCalls φ α) : Prop where
  alive : s.aborted = false
  pending : s.buffer.writePending + s.completed = totalOf s.writes
  split : ∃ paid, s.writes = paid ++ s.buffer.pendingWrites ∧
    s.settled.map Prod.fst = paid.map Prod.fst ∧ totalOf paid + left s.calls = s.completed
  positive : ∀ w ∈ s.writes, 0 < w.2
  positiveCall : ∀ n, BufferCall.write n ∈ s.calls → 0 < n

theorem Books.init (size : Nat) : Books (init size : BufferCalls φ α) where
  alive := rfl
  pending := rfl
  split := ⟨[], rfl, rfl, rfl⟩
  positive := by simp [BufferCalls.init]
  positiveCall := by simp [BufferCalls.init]

omit [Inhabited α] in
theorem Books.accounted (h : Books s) : Accounted s := by
  obtain ⟨paid, hwrites, hsettled, htotal⟩ := h.split
  have hpending := h.pending
  rw [hwrites, totalOf_append] at hpending
  refine ⟨h.alive, h.pending, by omega, ?_⟩
  rw [hsettled, hwrites, show s.completed - left s.calls = totalOf paid by omega]
  exact (due_append fun w hw => h.positive w (by simp [hwrites, hw])).symm

theorem Books.write {size : Nat} (h : Books s) (hproper : Proper s (.write size))
    (hstep : step s (.write size) = some s') : Books s' := by
  obtain ⟨hpending, hwrites⟩ := Buffer.reserve_pending size s.buffer
  obtain rfl := step_write hstep
  constructor
  · exact h.alive
  · show (s.buffer.reserve size).2.writePending + s.completed = _
    rw [hpending]
    exact h.pending
  · obtain ⟨paid, hsplit, hsettled, htotal⟩ := h.split
    refine ⟨paid, ?_, hsettled, ?_⟩
    · show s.writes = paid ++ (s.buffer.reserve size).2.pendingWrites
      rw [hwrites]
      exact hsplit
    · rw [left_cons]
      exact (congrArg (totalOf paid + ·) (Nat.zero_add _)).trans htotal
  · exact h.positive
  · intro n hn
    rcases List.mem_cons.mp hn with heq | hn
    · cases heq
      exact hproper
    · exact h.positiveCall n hn

theorem Books.codeReturns {f : φ} (h : Books s) (hstep : step s (.codeReturns f) = some s') :
    Books s' := by
  obtain ⟨count, rest, hcalls, rfl⟩ := step_codeReturns hstep
  have hcount : 0 < count := h.positiveCall count (by simp [hcalls])
  constructor
  · exact h.alive
  · show s.buffer.writePending + count + s.completed = totalOf (s.writes ++ [(f, count)])
    have := h.pending
    rw [totalOf_append, totalOf_cons, totalOf_nil]
    dsimp only
    omega
  · obtain ⟨paid, hsplit, hsettled, htotal⟩ := h.split
    refine ⟨paid, ?_, hsettled, ?_⟩
    · show s.writes ++ [(f, count)] = paid ++ (s.buffer.pendingWrites ++ [(f, count)])
      rw [hsplit, List.append_assoc]
    · rw [hcalls, left_cons] at htotal
      exact (congrArg (totalOf paid + ·) (Nat.zero_add _)).symm.trans htotal
  · intro w hw
    rcases List.mem_append.mp hw with hw | hw
    · exact h.positive w hw
    · rw [List.mem_singleton.mp hw]
      exact hcount
  · exact fun n hn => h.positiveCall n (by rw [hcalls]; exact List.mem_cons_of_mem _ hn)

theorem Books.writeComplete {bytes : Nat} (h : Books s) (hproper : Proper s (.writeComplete bytes))
    (hstep : step s (.writeComplete bytes) = some s') : Books s' := by
  have hpending := h.pending
  have hroom : s.completed + bytes ≤ totalOf s.writes := hproper.2
  rcases step_writeComplete hstep with ⟨hle, rfl⟩ | ⟨hlt, _⟩
  · constructor
    · exact h.alive
    · show s.buffer.writePending - bytes + (s.completed + bytes) = totalOf s.writes
      omega
    · obtain ⟨paid, hsplit, hsettled, htotal⟩ := h.split
      refine ⟨paid, hsplit, hsettled, ?_⟩
      show totalOf paid + (bytes + left s.calls) = s.completed + bytes
      omega
    · exact h.positive
    · intro n hn
      refine h.positiveCall n ((List.mem_cons.mp hn).resolve_left ?_)
      intro heq
      cases heq
  · -- the first assertion holds, since the books are right
    omega

theorem Books.turn (h : Books s) (hwhole : Whole s .turn) (hstep : step s .turn = some s') :
    Books s' := by
  obtain ⟨bytes, total, rest, hcalls, hturn⟩ := step_turn hstep
  obtain ⟨paid, hsplit, hsettled, htotal⟩ := h.split
  have hpending := h.pending
  rw [hcalls, left_cons, BufferCall.left] at htotal
  have hrest : ∀ n, BufferCall.write n ∈ rest → 0 < n :=
    fun n hn => h.positiveCall n (by rw [hcalls]; exact List.mem_cons_of_mem _ hn)
  rcases hturn with ⟨f, n, pending, hbytes, hp, hle, rfl⟩ | ⟨f, n, pending, hbytes, hp, hlt, _⟩ |
    ⟨rfl, rfl⟩ | ⟨hbytes, hp, _⟩
  · -- the first pending write is covered and becomes the last one settled
    refine ⟨h.alive, hpending, ⟨paid ++ [(f, n)], ?_, ?_, ?_⟩, h.positive, ?_⟩
    · rw [hsplit, hp, List.append_assoc]
      rfl
    · rw [List.map_append, List.map_append, hsettled]
      rfl
    · show totalOf (paid ++ [(f, n)]) + (bytes - n + left rest) = s.completed
      rw [totalOf_append, totalOf_cons, totalOf_nil]
      dsimp only
      omega
    · intro m hm
      refine hrest m ((List.mem_cons.mp hm).resolve_left ?_)
      intro heq
      cases heq
  · -- a write covered in part is what the condition excludes
    have hcover : s.coversFront = true := hwhole
    simp only [coversFront, hcalls, hp, decide_eq_true_eq] at hcover
    omega
  · rw [Nat.zero_add] at htotal
    exact ⟨h.alive, hpending, ⟨paid, hsplit, hsettled, htotal⟩, h.positive, hrest⟩
  · -- the assertion behind the loop: as much is pending as there is to take off
    rw [hsplit, hp, List.append_nil] at hpending
    omega

theorem Books.pushBack {v : α} (h : Books s) (hstep : step s (.pushBack v) = some s') :
    Books s' := by
  obtain rfl := step_pushBack hstep
  exact ⟨h.alive, h.pending, h.split, h.positive, h.positiveCall⟩

theorem Books.eraseBegin {count : Nat} (h : Books s)
    (hstep : step s (.eraseBegin count) = some s') : Books s' := by
  obtain ⟨_, rfl⟩ := step_eraseBegin hstep
  exact ⟨h.alive, h.pending, h.split, h.positive, h.positiveCall⟩

theorem Books.step {e : BufferEvent φ α} (h : Books s) (hok : Proper s e ∧ Whole s e)
    (hstep : step s e = some s') : Books s' := by
  cases e with
  | write size => exact h.write hok.1 hstep
  | codeReturns f => exact h.codeReturns hstep
  | writeComplete bytes => exact h.writeComplete hok.1 hstep
  | turn => exact h.turn hok.2 hstep
  | pushBack v => exact h.pushBack hstep
  | eraseBegin count => exact h.eraseBegin hstep

/-- **The accounts are right** in every run of proper calls in which no loop
meets a write that it covers only in part. -/
theorem accounted_of_run {size : Nat}
    (run : Run step (fun s e => Proper s e ∧ Whole s e) (init size) s) : Accounted s :=
  (run.invariant (Books.init size) fun h hok hstep => h.step hok hstep).accounted

/-- Two writes of 2 and 3 bytes, completed by one call. -/
theorem accounted_of_run_two : ∃ s : BufferCalls Nat Byte,
    s.settled = [(0, 5), (1, 5)] ∧ Accounted s := by
  obtain ⟨s, hexec, hsettled⟩ := Option.map_eq_some_iff.mp
    (show (exec (guarded step fun s e => Proper s e ∧ Whole s e) (init 10 : BufferCalls Nat Byte)
      [.write 2, .codeReturns 0, .write 3, .codeReturns 1, .writeComplete 5, .turn, .turn,
        .turn]).map (·.settled) = some [(0, 5), (1, 5)] by decide)
  exact ⟨s, hsettled, accounted_of_run (.of_guarded _ hexec)⟩

/-! ## A write completed in two parts -/

/-- More is outstanding in the queue than will ever be completed. -/
def Short (s : BufferCalls φ α) : Prop :=
  s.buffer.writePending + left s.calls < totalOf s.buffer.pendingWrites

omit [Inhabited α] in
theorem Short.not_accounted (h : Short s) : ¬ Accounted s := by
  intro hacc
  exact absurd hacc.outstanding (Nat.ne_of_gt h)

/-- A turn that meets a larger entry loses what it has left. -/
theorem Accounted.short (h : Accounted s) (hlossy : ¬ Whole s .turn)
    (hstep : step s .turn = some s') : Short s' := by
  obtain ⟨bytes, total, rest, hcalls, hturn⟩ := step_turn hstep
  have hsum := h.outstanding
  rw [hcalls, left_cons, BufferCall.left] at hsum
  have hcover : s.coversFront = false := by simpa [Whole] using hlossy
  rcases hturn with ⟨f, n, pending, hbytes, hp, hle, _⟩ | ⟨f, n, pending, hbytes, hp, hlt, rfl⟩ |
    ⟨rfl, _⟩ | ⟨hbytes, hp, _⟩
  · simp [coversFront, hcalls, hp, hle] at hcover
  · show s.buffer.writePending + (0 + left rest) < totalOf s.buffer.pendingWrites
    omega
  · rcases hp : s.buffer.pendingWrites with _ | ⟨w, pending⟩
    · simp [coversFront, hcalls, hp] at hcover
    · simp [coversFront, hcalls, hp] at hcover
  · simp [coversFront, hcalls, hp] at hcover

/-- Nothing makes up for it. -/
theorem Short.step {e : BufferEvent φ α} (h : Short s) (hstep : step s e = some s') :
    Short s' := by
  unfold Short at h
  cases e with
  | write size =>
    obtain ⟨hpending, hwrites⟩ := Buffer.reserve_pending size s.buffer
    obtain rfl := step_write hstep
    show (s.buffer.reserve size).2.writePending + (0 + left s.calls) <
      totalOf (s.buffer.reserve size).2.pendingWrites
    rw [hpending, hwrites, Nat.zero_add]
    exact h
  | codeReturns f =>
    obtain ⟨count, rest, hcalls, rfl⟩ := step_codeReturns hstep
    rw [hcalls, left_cons, BufferCall.left] at h
    show s.buffer.writePending + count + left rest <
      totalOf (s.buffer.pendingWrites ++ [(f, count)])
    rw [totalOf_append, totalOf_cons, totalOf_nil]
    dsimp only
    omega
  | writeComplete bytes =>
    rcases step_writeComplete hstep with ⟨hle, rfl⟩ | ⟨_, rfl⟩
    · show s.buffer.writePending - bytes + (bytes + left s.calls) < totalOf s.buffer.pendingWrites
      omega
    · exact h
  | turn =>
    obtain ⟨bytes, total, rest, hcalls, hturn⟩ := step_turn hstep
    rw [hcalls, left_cons, BufferCall.left] at h
    rcases hturn with ⟨f, n, pending, hbytes, hp, hle, rfl⟩ | ⟨f, n, pending, hbytes, hp, hlt, rfl⟩ |
      ⟨rfl, rfl⟩ | ⟨hbytes, hp, _⟩
    · rw [hp, totalOf_cons] at h
      dsimp only at h
      show s.buffer.writePending + (bytes - n + left rest) < totalOf pending
      omega
    · show s.buffer.writePending + (0 + left rest) < totalOf s.buffer.pendingWrites
      omega
    · show s.buffer.writePending + left rest < totalOf s.buffer.pendingWrites
      omega
    · rw [hp, totalOf_nil] at h
      omega
  | pushBack v =>
    obtain rfl := step_pushBack hstep
    exact h
  | eraseBegin count =>
    obtain ⟨_, rfl⟩ := step_eraseBegin hstep
    exact h

/-- **The accounts are never right again** after a turn that met a larger entry. -/
theorem not_accounted_after_loss {size : Nat} {t u : BufferCalls φ α}
    (before : Run step (fun s e => Proper s e ∧ Whole s e) (init size) s)
    (lossy : ¬ Whole s .turn) (hstep : step s .turn = some t) (after : Run step Proper t u) :
    ¬ Accounted u := by
  have hshort : Short t := (accounted_of_run before).short lossy hstep
  exact (after.invariant hshort fun h _ hstep => h.step hstep).not_accounted

/-- Five bytes, completed as 3 and 2: the future of the write is not completed. -/
theorem splitWrite_not_accounted :
    ¬ ∀ s : BufferCalls Nat Byte, Run step Proper (init 10) s → Accounted s := by
  intro h
  obtain ⟨s, hexec, hs⟩ := Option.map_eq_some_iff.mp
    (show (exec (guarded step Proper) (init 10 : BufferCalls Nat Byte)
      [.write 5, .codeReturns 0, .writeComplete 3, .turn, .turn, .writeComplete 2, .turn,
        .turn]).map (fun s => (s.settled, s.completed, s.writes, s.calls)) =
        some ([], 5, [(0, 5)], []) by decide)
  simp only [Prod.mk.injEq] at hs
  obtain ⟨hsettled, hcompleted, hwrites, hcalls⟩ := hs
  have hdue := (h s (.of_guarded _ hexec)).settled
  rw [hsettled, hcompleted, hwrites, hcalls] at hdue
  exact absurd hdue (by decide)

end BufferCalls

end AsioProtocols
