import AsioProtocols.Base.Bytes
import AsioProtocols.Base.Machine

/-!
# The output queue of a TCP stream

`net::asio::tcp::stream` (`tcp.h`): `write` pushes on `outgoing_` and calls `check_outgoing`, and
so does the handler of every completed write. `check_outgoing` takes a payload off the queue
unless `sending_` is set. The queue and the flag are guarded by a mutex, and between its
sections any other thread may run; so a thread is what it has left to do (`Pc`), and an
event runs one section of one thread.

`Sound` is the invariant: the flag is set as long as some thread or the socket has a
payload, and where it is not and the queue is not empty, some thread is about to look.
`delivers_of_run` reads the three properties of the queue off it.

`sending_` and `mutex_` are used but not declared in the class; the flag starts as false. The
socket writes a payload completely or reports an error, and calls the handler later. What
`write_error` does is not in the class either, and here it leaves the queue alone.
-/

namespace AsioProtocols

/-- What a thread in `write`, `check_outgoing` or a completion handler does next. -/
inductive Pc
  /-- The first section of `write(in)` (tcp.h, lines 51-54). -/
  | push (payload : Bytes)
  /-- The section of `check_outgoing` (lines 61-73). -/
  | check
  /-- `async_write`, with what was taken off the queue (lines 74-76). -/
  | start (next : Bytes)
  /-- The section of a handler without an error (lines 81-82). -/
  | reset
  deriving DecidableEq, Repr

/-- `outgoing_` and `sending_`; the threads in a call, in any order, and the outstanding
writes of the socket; what was pushed and what was handed to the socket so far, and whether
a write has failed. -/
structure TcpStream where
  outgoing : List Bytes := []
  sending : Bool := false
  threads : List Pc := []
  writes : List Bytes := []
  pushed : List Bytes := []
  handed : List Bytes := []
  failed : Bool := false
  deriving DecidableEq, Repr

namespace TcpStream

/-- What may happen: a call of `write`, the next section of the thread at `i`, and the end
of the write at `i`. -/
inductive Event
  | write (payload : Bytes)
  | run (i : Nat)
  | complete (i : Nat) (succeeded : Bool)

/-- One section of a thread, and what the thread has left to do. -/
def runSection (s : TcpStream) : Pc → TcpStream × List Pc
  | .push payload =>
    ({ s with outgoing := s.outgoing ++ [payload], pushed := s.pushed ++ [payload] }, [.check])
  | .check =>
    match s.outgoing with
    | [] => (s, [])
    | next :: rest =>
      -- the queue is tested a second time behind this, where it cannot be empty
      if s.sending then (s, []) else ({ s with sending := true, outgoing := rest }, [.start next])
  | .start next => ({ s with writes := s.writes ++ [next], handed := s.handed ++ [next] }, [])
  | .reset => ({ s with sending := false }, [.check])

/-- What a thread does next in a completion handler: behind an error the flag stays. -/
def handler (succeeded : Bool) : Pc := if succeeded then .reset else .check

def step (s : TcpStream) : Event → Option TcpStream
  | .write payload => some { s with threads := s.threads ++ [.push payload] }
  | .run i =>
    (s.threads[i]?).map fun pc =>
      { (s.runSection pc).1 with
        threads := s.threads.take i ++ (s.runSection pc).2 ++ s.threads.drop (i + 1) }
  | .complete i succeeded =>
    (s.writes[i]?).map fun _ =>
      { s with
        writes := s.writes.eraseIdx i, failed := s.failed || !succeeded
        threads := s.threads ++ [handler succeeded] }

/-- **What the queue is for**: one write at a time, the payloads in the order they were
pushed, and none left behind when all is quiet. -/
structure Delivers (s : TcpStream) : Prop where
  oneWrite : s.writes.length ≤ 1
  inOrder : s.handed <+: s.pushed
  allSent : s.failed = false → s.threads = [] → s.writes = [] → s.outgoing = []

/-- The thread has a payload, or is about to reset the flag. -/
def holds : Pc → Bool
  | .start _ | .reset => true
  | .push _ | .check => false

/-- What a thread has taken off the queue. -/
def taken : Pc → List Bytes
  | .start next => [next]
  | .push _ | .check | .reset => []

/-- **The invariant.** The flag counts who holds it: a thread, the socket, or a failed write for
good. Each payload is handed on, held or queued, in the order of the pushes. And where the
flag is not set, a thread is about to look at the queue. -/
structure Sound (s : TcpStream) : Prop where
  flag : s.threads.countP holds + s.writes.length + s.failed.toNat = s.sending.toNat
  order : s.handed ++ s.threads.flatMap taken ++ s.outgoing = s.pushed
  awake : s.sending = false → s.outgoing ≠ [] → .check ∈ s.threads

/-! ## One event -/

variable {s t : TcpStream}

theorem flatMap_taken {threads : List Pc} (h : threads.countP holds = 0) :
    threads.flatMap taken = [] := by
  rw [List.flatMap_eq_nil_iff]
  intro pc hpc
  have hnot := List.countP_eq_zero.mp h pc hpc
  cases pc with
  | push | check | reset => rfl
  | start next => exact absurd rfl hnot

theorem Sound.write (h : Sound s) (payload : Bytes) :
    Sound { s with threads := s.threads ++ [.push payload] } where
  flag := by
    rw [List.countP_append]
    exact h.flag
  order := by
    rw [List.flatMap_append]
    simpa [taken] using h.order
  awake hsending hne := List.mem_append_left _ (h.awake hsending hne)

/-! One section of the thread between `before` and `after`. -/

section

variable {before after : List Pc} {pc : Pc}

/-- Nobody else has a payload where the thread holds the flag, or nobody does. -/
theorem Sound.others (h : Sound { s with threads := before ++ [pc] ++ after })
    (honly : holds pc = true ∨ s.sending = false) :
    before.flatMap taken = [] ∧ after.flatMap taken = [] := by
  have hflag : (before ++ [pc] ++ after).countP holds + s.writes.length + s.failed.toNat =
      s.sending.toNat := h.flag
  have hbit := s.sending.toNat_le
  rw [List.countP_append, List.countP_append, List.countP_singleton] at hflag
  rcases honly with hpc | hsending
  · rw [hpc, if_pos rfl] at hflag
    exact ⟨flatMap_taken (by omega), flatMap_taken (by omega)⟩
  · rw [hsending, Bool.toNat_false] at hflag
    exact ⟨flatMap_taken (by omega), flatMap_taken (by omega)⟩

theorem Sound.push {payload : Bytes}
    (h : Sound { s with threads := before ++ [.push payload] ++ after }) :
    Sound { s with
      outgoing := s.outgoing ++ [payload], pushed := s.pushed ++ [payload]
      threads := before ++ [.check] ++ after } where
  flag := by simpa [holds] using h.flag
  order := by
    have horder := congrArg (· ++ [payload]) h.order
    simpa [taken] using horder
  awake _ _ := by simp

/-- The thread ends. Nobody needs it: there is nothing to send, or the flag is set. -/
theorem Sound.leave (h : Sound { s with threads := before ++ [.check] ++ after })
    (hidle : s.outgoing = [] ∨ s.sending = true) :
    Sound { s with threads := before ++ [] ++ after } where
  flag := by simpa [holds] using h.flag
  order := by simpa [taken] using h.order
  awake hsending hne := by
    rcases hidle with hempty | hset
    · exact absurd hempty hne
    · exact absurd (hsending.symm.trans hset) Bool.false_ne_true

/-- The thread takes the first payload, and the flag. -/
theorem Sound.take {next : Bytes} {rest : List Bytes}
    (h : Sound { s with threads := before ++ [.check] ++ after })
    (hsending : s.sending = false) (hout : s.outgoing = next :: rest) :
    Sound { s with
      sending := true, outgoing := rest, threads := before ++ [.start next] ++ after } := by
  obtain ⟨hbefore, hafter⟩ := h.others (.inr hsending)
  obtain ⟨hflag, horder, -⟩ := h
  refine ⟨?_, ?_, fun hset => absurd hset.symm Bool.false_ne_true⟩
  · simp only [List.countP_append, List.countP_singleton, holds, Bool.false_eq_true, if_false,
      if_true, hsending, Bool.toNat_false, Bool.toNat_true] at hflag ⊢
    omega
  · simpa [hbefore, hafter, hout, taken] using horder

/-- The payload and the flag go over to the socket. -/
theorem Sound.start {next : Bytes}
    (h : Sound { s with threads := before ++ [.start next] ++ after }) :
    Sound { s with
      writes := s.writes ++ [next], handed := s.handed ++ [next]
      threads := before ++ [] ++ after } := by
  obtain ⟨hbefore, hafter⟩ := h.others (.inl rfl)
  obtain ⟨hflag, horder, -⟩ := h
  have hbit := s.sending.toNat_le
  simp only [List.countP_append, List.countP_singleton, holds, if_true] at hflag
  have hsending : s.sending = true := Bool.toNat_eq_one.mp (by omega)
  refine ⟨?_, ?_, fun hunset => absurd (hunset.symm.trans hsending) Bool.false_ne_true⟩
  · simp only [List.append_nil, List.countP_append, List.length_append, List.length_singleton]
    omega
  · simpa [hbefore, hafter, taken] using horder

/-- The flag is reset, and the thread looks at the queue. -/
theorem Sound.reset (h : Sound { s with threads := before ++ [.reset] ++ after }) :
    Sound { s with sending := false, threads := before ++ [.check] ++ after } := by
  obtain ⟨hflag, horder, -⟩ := h
  have hbit := s.sending.toNat_le
  refine ⟨?_, ?_, fun _ _ => by simp⟩
  · simp only [List.countP_append, List.countP_singleton, holds, if_true, Bool.false_eq_true,
      if_false, Bool.toNat_false] at hflag ⊢
    omega
  · simpa [taken] using horder

/-- **A section** of a thread. -/
theorem Sound.runSection (h : Sound { s with threads := before ++ [pc] ++ after }) :
    Sound { (s.runSection pc).1 with threads := before ++ (s.runSection pc).2 ++ after } := by
  cases pc with
  | push payload => exact h.push
  | check =>
    rw [TcpStream.runSection]
    cases hout : s.outgoing with
    | nil => exact h.leave (.inl hout)
    | cons next rest =>
      by_cases hsending : s.sending = true
      · rw [hsending]
        exact h.leave (.inr hsending)
      · rw [Bool.not_eq_true] at hsending
        rw [hsending]
        exact h.take hsending hout
  | start next => exact h.start
  | reset => exact h.reset

end

/-- **The end of a write.** -/
theorem Sound.complete (h : Sound s) {i : Nat} (hi : i < s.writes.length) (succeeded : Bool) :
    Sound { s with
      writes := s.writes.eraseIdx i, failed := s.failed || !succeeded
      threads := s.threads ++ [handler succeeded] } := by
  obtain ⟨hflag, horder, hawake⟩ := h
  have hbit := s.sending.toNat_le
  have hlen := List.length_eraseIdx_of_lt hi
  have hsending : s.sending = true := Bool.toNat_eq_one.mp (by omega)
  have hfailed : s.failed = false := Bool.toNat_eq_zero.mp (by omega)
  refine ⟨?_, ?_, fun hunset => absurd (hunset.symm.trans hsending) Bool.false_ne_true⟩
  · rw [hfailed] at hflag
    simp only [List.countP_append, hlen, hfailed, Bool.false_or]
    -- the flag goes over to the handler, or to the failure
    cases succeeded with
    | true =>
      simp only [handler, if_true, List.countP_singleton, holds, Bool.not_true]
      omega
    | false =>
      simp only [handler, Bool.false_eq_true, if_false, List.countP_singleton, holds,
        Bool.not_false, Bool.toNat_true, Bool.toNat_false] at hflag ⊢
      omega
  · have hnone : taken (handler succeeded) = [] := by cases succeeded <;> rfl
    rw [← horder, List.flatMap_append, List.flatMap_singleton, hnone, List.append_nil]

theorem Sound.step {e : Event} (h : Sound s) (hstep : s.step e = some t) : Sound t := by
  cases e with
  | write payload =>
    cases hstep
    exact h.write payload
  | run i =>
    obtain ⟨pc, hpc, rfl⟩ := Option.map_eq_some_iff.mp hstep
    obtain ⟨hi, hget⟩ := List.getElem?_eq_some_iff.mp hpc
    have hthreads : s.threads.take i ++ [pc] ++ s.threads.drop (i + 1) = s.threads := by
      rw [List.append_assoc, List.singleton_append, ← hget, List.cons_getElem_drop_succ,
        List.take_append_drop]
    have hsame : Sound { s with threads := s.threads.take i ++ [pc] ++ s.threads.drop (i + 1) } := by
      rw [hthreads]
      exact h
    exact hsame.runSection
  | complete i succeeded =>
    obtain ⟨payload, hpayload, rfl⟩ := Option.map_eq_some_iff.mp hstep
    obtain ⟨hi, -⟩ := List.getElem?_eq_some_iff.mp hpayload
    exact h.complete hi succeeded

/-! ## Every run -/

theorem sound_of_run (run : Run step anyEvent {} s) : Sound s := by
  refine run.invariant ⟨rfl, rfl, fun _ hne => absurd rfl hne⟩ ?_
  intro t u e h _ hstep
  exact h.step hstep

/-- **The output queue**, in every interleaving. -/
theorem delivers_of_run (run : Run step anyEvent {} s) : Delivers s := by
  obtain ⟨hflag, horder, hawake⟩ := sound_of_run run
  have hbit := s.sending.toNat_le
  refine ⟨by omega, ⟨s.threads.flatMap taken ++ s.outgoing, ?_⟩, ?_⟩
  · rw [← List.append_assoc]
    exact horder
  · intro hfailed hthreads hwrites
    by_contra hne
    have hsending : s.sending = false := by
      rw [hthreads, hwrites, hfailed] at hflag
      exact Bool.toNat_eq_zero.mp hflag.symm
    have hcheck := hawake hsending hne
    rw [hthreads] at hcheck
    cases hcheck

/-- Two calls push before either looks at the queue, and one of them looks between the end of
the first write and the reset of the flag. -/
def twoWriters : List Event :=
  [.write (ascii "a"), .write (ascii "b"), .run 0, .run 1, .run 1, .run 1, .complete 0 true,
    .run 0, .run 0, .run 0, .run 0]

theorem delivers_of_run_twoWriters :
    Delivers { sending := true, writes := [ascii "b"], pushed := [ascii "a", ascii "b"],
               handed := [ascii "a", ascii "b"] } :=
  delivers_of_run (Run.of_exec (fun _ _ => trivial) twoWriters (by decide))

end TcpStream

end AsioProtocols
