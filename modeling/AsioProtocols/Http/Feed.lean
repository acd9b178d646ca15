import AsioProtocols.Http.Events
import AsioProtocols.Http.Reading

/-!
# A connection and what it is sent

`Feed` is a client together with the bytes that the server of one connection has sent
and that the socket has not been read for. Two things happen to it: a socket read
moves some of the bytes to the buffer, and the handler of a completed read runs. The
bytes of the buffer and of the socket together, `Feed.unread`, do not depend on where the
socket reads cut them.

This module says what the two moves do to a connection with one outstanding read, and
when they are possible; the modules behind it follow a response through them.
-/

namespace AsioProtocols

open Function

/-- A client, and what the server of its connection `c` has sent that the socket has
not been read for. -/
structure Feed where
  world : World
  wire : Bytes

/-- The callback of a completed `read_delimited` runs on the line taken off. -/
theorem World.finishRead_line {w : World} {c : ConnId} {op : ReadOp} {pos : Nat}
    (hwanted : op.wanted = none) (v : Verdict) :
    (w.modConn c fun k => { k with reads := k.reads.eraseIdx 0 }).finishRead c op (.ok pos) v =
      (Reading.taken w c (pos + 2)).onLine c op.point ((w.conns c).input.take pos) v := by
  have hin : ((w.modConn c fun k => { k with reads := k.reads.eraseIdx 0 }).conns c).input =
      (w.conns c).input := by simp [World.modConn]
  simp only [World.finishRead, hwanted, hin]
  rfl

/-- The callback of a completed `read` runs on the bytes taken off. -/
theorem World.finishRead_data {w : World} {c : ConnId} {op : ReadOp} {pos n : Nat}
    (hwanted : op.wanted = some n) (v : Verdict) :
    (w.modConn c fun k => { k with reads := k.reads.eraseIdx 0 }).finishRead c op (.ok pos) v =
      (Reading.taken w c n).onData c op.point ((w.conns c).input.take n) v := by
  have hin : ((w.modConn c fun k => { k with reads := k.reads.eraseIdx 0 }).conns c).input =
      (w.conns c).input := by simp [World.modConn]
  simp only [World.finishRead, hwanted, hin]
  rfl

namespace Feed

/-- A socket read of at most `n` bytes, or the handler of the outstanding read. -/
inductive Move
  | deliver (n : Nat)
  | handle (verdict : Verdict)

def step (c : ConnId) (f : Feed) : Move → Option Feed
  | .deliver n =>
    (f.world.step (.receive c 0 (f.wire.take n))).map fun w => ⟨w, f.wire.drop n⟩
  | .handle v => (f.world.step (.runRead c 0 v)).map fun w => ⟨w, f.wire⟩

/-- What is unread, in the buffer and in the socket. -/
def unread (c : ConnId) (f : Feed) : Bytes := (f.world.conns c).input ++ f.wire

/-- The connection is about to read a response into `r`. -/
structure Opened (c : ConnId) (r : RespId) (f : Feed) : Prop where
  running : f.world.fault = none
  isOpen : (f.world.conns c).closed = false
  res : (f.world.conns c).res = some r
  reads : (f.world.conns c).reads =
    [{ point := .status, result := (find crlf (f.world.conns c).input).map .ok }]

/-- How much the moves have left to do. -/
def left (c : ConnId) (f : Feed) : Nat := (f.unread c).length + f.wire.length

variable {c : ConnId} {f f' : Feed} {op : ReadOp} {v : Verdict}

/-- A socket read moves bytes from the socket to the buffer, and may complete the
outstanding read. -/
theorem deliver_inv {n : Nat} (hreads : (f.world.conns c).reads = [op])
    (hstep : f.step c (.deliver n) = some f') : op.result = none ∧ f'.left c < f.left c ∧
      ∃ input wire, input ++ wire = f.unread c ∧
        f' = ⟨f.world.modConn c fun k =>
          { k with input := input, reads := [{ op with result := op.completion input }] }, wire⟩ := by
  obtain ⟨w', hw, rfl⟩ := Option.map_eq_some_iff.mp hstep
  obtain ⟨op', hop, hresult, -, hadmits, rfl⟩ := World.receive_inv (World.step_eq_some hw).2
  obtain rfl : op = op' := by simpa [hreads] using hop
  have hbytes : f.wire.take n ≠ [] := by
    intro hnil
    rw [hnil, ReadOp.admits] at hadmits
    cases hwanted : op.wanted <;> simp [hwanted] at hadmits
  refine ⟨hresult, ?_, (f.world.conns c).input ++ f.wire.take n, f.wire.drop n, ?_, ?_⟩
  · have hlen := congrArg List.length (List.take_append_drop n f.wire)
    have hpos := List.length_pos_iff.mpr hbytes
    rw [List.length_append] at hlen
    simp only [left, unread, World.receive, World.modConn, update_self, List.length_append]
    omega
  · rw [unread, List.append_assoc, List.take_append_drop]
  · simp [World.receive, World.modConn, hreads]

/-- The handler of the outstanding read runs once it has completed. -/
theorem handle_inv (hreads : (f.world.conns c).reads = [op])
    (hstep : f.step c (.handle v) = some f') : ∃ result, op.result = some result ∧
      f' = ⟨(f.world.modConn c fun k => { k with reads := k.reads.eraseIdx 0 }).finishRead c op
        result v, f.wire⟩ := by
  obtain ⟨w', hw, rfl⟩ := Option.map_eq_some_iff.mp hstep
  obtain ⟨op', result, hop, hresult, rfl⟩ := World.runRead_inv (World.step_eq_some hw).2
  obtain rfl : op = op' := by simpa [hreads] using hop
  exact ⟨result, hresult, rfl⟩

theorem can_handle {result : Except Bytes Nat} (hrunning : f.world.fault = none)
    (hreads : (f.world.conns c).reads = [op]) (hresult : op.result = some result) :
    ∃ f', f.step c (.handle v) = some f' := by
  refine Option.isSome_iff_exists.mp ?_
  simp [step, World.step, hrunning, World.apply, hreads, hresult]

/-- Without an outstanding read nothing happens, nor while one waits and nothing is
sent. -/
theorem step_inv {move : Move} (hstep : f.step c move = some f') :
    ∃ op, (f.world.conns c).reads[0]? = some op ∧ (f.wire = [] → op.result ≠ none) := by
  cases move with
  | deliver n =>
    obtain ⟨w', hw, rfl⟩ := Option.map_eq_some_iff.mp hstep
    obtain ⟨op, hop, -, -, hadmits, -⟩ := World.receive_inv (World.step_eq_some hw).2
    refine ⟨op, hop, fun hwire => ?_⟩
    rw [hwire, List.take_nil, ReadOp.admits] at hadmits
    cases hwanted : op.wanted <;> simp [hwanted] at hadmits
  | handle v =>
    obtain ⟨w', hw, rfl⟩ := Option.map_eq_some_iff.mp hstep
    obtain ⟨op, result, hop, hresult, -⟩ := World.runRead_inv (World.step_eq_some hw).2
    refine ⟨op, hop, fun _ => ?_⟩
    rw [hresult]
    exact Option.some_ne_none _

theorem step_of_no_read (hreads : (f.world.conns c).reads = []) (move : Move) :
    f.step c move = none := by
  rcases hstep : f.step c move with _ | f'
  · rfl
  · obtain ⟨op, hop, -⟩ := step_inv hstep
    rw [hreads] at hop
    cases hop

/-- What is in the socket can be read, as far as the outstanding read asks for it. -/
theorem can_deliver (hrunning : f.world.fault = none) (hopen : (f.world.conns c).closed = false)
    (hreads : (f.world.conns c).reads = [op]) (hresult : op.result = none)
    (hshort : op.completion (f.world.conns c).input = none) (hwire : f.wire ≠ []) :
    ∃ n f', f.step c (.deliver n) = some f' := by
  suffices hadmits : ∃ n, op.admits (f.world.conns c).input (f.wire.take n) = true by
    obtain ⟨n, hn⟩ := hadmits
    refine ⟨n, Option.isSome_iff_exists.mp ?_⟩
    simp [step, World.step, hrunning, World.apply, hreads, hresult, hopen, hn]
  cases hwanted : op.wanted with
  | none => exact ⟨f.wire.length, by simp [ReadOp.admits, hwanted, hwire]⟩
  | some k =>
    simp only [ReadOp.completion, hwanted] at hshort
    have hlt : (f.world.conns c).input.length < k := by
      by_contra hlong
      rw [if_pos (Nat.not_lt.mp hlong)] at hshort
      cases hshort
    have hpos := List.length_pos_iff.mpr hwire
    refine ⟨k - (f.world.conns c).input.length, ?_⟩
    have hne : f.wire.take (k - (f.world.conns c).input.length) ≠ [] := by
      rw [ne_eq, ← List.length_eq_zero_iff, List.length_take]
      omega
    have hfits : (f.world.conns c).input.length +
        min (k - (f.world.conns c).input.length) f.wire.length ≤ k := by omega
    simp [ReadOp.admits, hwanted, hne, hfits]

end Feed

/-- Connection `c` is receiving a response into `r`, for its unsettled attempt `a`. -/
structure Receiving (c : ConnId) (r : RespId) (a : AttemptId) (w : World) : Prop where
  running : w.fault = none
  isOpen : (w.conns c).closed = false
  res : (w.conns c).res = some r
  current : w.completions.current r = a
  known : a < w.completions.nattempts
  pending : (w.completions.attempts a).outcome = none

/-- What the handlers of a response do on the way leaves it so. -/
theorem Receiving.of_same {c : ConnId} {r : RespId} {a : AttemptId} {w w' : World}
    (h : Receiving c r a w) (hfault : w'.fault = w.fault)
    (hclosed : (w'.conns c).closed = (w.conns c).closed) (hres : (w'.conns c).res = (w.conns c).res)
    (hcompletions : w'.completions = w.completions) : Receiving c r a w' :=
  ⟨hfault.trans h.running, hclosed.trans h.isOpen, hres.trans h.res, by rw [hcompletions, h.current],
    by rw [hcompletions]; exact h.known, by rw [hcompletions, h.pending]⟩

/-- No read of `c` is outstanding; `rest` is unread. -/
structure AtRest (c : ConnId) (r : RespId) (a : AttemptId) (wire rest : Bytes) (w : World) :
    Prop where
  receiving : Receiving c r a w
  reads : (w.conns c).reads = []
  rest : (w.conns c).input ++ wire = rest

namespace AtRest

variable {c : ConnId} {r : RespId} {a : AttemptId} {wire rest : Bytes} {w : World}

theorem extendTimer (h : AtRest c r a wire rest w) : AtRest c r a wire rest (w.extendTimer c) where
  receiving := h.receiving.of_same rfl (by simp [World.extendTimer, World.modConn])
    (by simp [World.extendTimer, World.modConn]) rfl
  reads := by simpa [World.extendTimer, World.modConn] using h.reads
  rest := by simpa [World.extendTimer, World.modConn] using h.rest

theorem parser (h : AtRest c r a wire rest w) (mode : Transfer) (expected : Nat) :
    AtRest c r a wire rest (w.modConn c fun k =>
      { k with transferMode := mode, expectedBytes := expected }) where
  receiving := h.receiving.of_same rfl (by simp [World.modConn]) (by simp [World.modConn]) rfl
  reads := by simpa [World.modConn] using h.reads
  rest := by simpa [World.modConn] using h.rest

theorem store (h : AtRest c r a wire rest w) (m : Message) : AtRest c r a wire rest (w.store c r m) :=
  ⟨h.receiving.of_same rfl rfl rfl rfl, h.reads, h.rest⟩

/-- The bytes a read asked for are taken off. -/
theorem taken {f : Feed} {op : ReadOp} (h : Receiving c r a f.world)
    (hreads : (f.world.conns c).reads = [op]) {n : Nat} {behind : Bytes}
    (hdrop : (f.world.conns c).input.drop n ++ f.wire = behind) :
    AtRest c r a f.wire behind (Reading.taken f.world c n) where
  receiving := h.of_same rfl (by simp [Reading.taken, World.modConn])
    (by simp [Reading.taken, World.modConn]) rfl
  reads := by simp [Reading.taken, World.modConn, hreads]
  rest := by simpa [Reading.taken, World.modConn] using hdrop

end AtRest

end AsioProtocols
