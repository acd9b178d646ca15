import AsioProtocols.Base.Machine
import AsioProtocols.Http.World

/-!
# Events

The steps of the client: calls from outside, completions of asio operations, and
runs of the handlers they queue. Completing an operation and running its handler
are separate events, so a read that succeeded may have its handler run after a
timer has closed the connection. On a closed connection a pending operation can
only complete with an error.

A caller may also close or remove a connection; it releases only a connection
that `next()` gave it and that it has not written on.

`verdict` is what the slots of `on_completion` answer if the handler that runs
settles an attempt; a handler settles at most one.
-/

namespace AsioProtocols

/-- What can happen. Operations are named by their index among those of their
connection. -/
inductive Event
  | request (q : Request) (stall : Nat)
  | next
  | release (c : ConnId)
  | close (c : ConnId)
  | remove (c : ConnId)
  | maxConnections (n : Nat)
  | limitConnections (b : Bool)
  | setupDone (c : ConnId) (result : Except Bytes Unit)
  | runSetup (c : ConnId)
  | receive (c : ConnId) (i : Nat) (bytes : Bytes)
  | readFails (c : ConnId) (i : Nat) (err : Bytes)
  | runRead (c : ConnId) (i : Nat) (verdict : Verdict)
  | writeDone (c : ConnId) (i : Nat) (result : Except Bytes Unit)
  | runWrite (c : ConnId) (i : Nat) (verdict : Verdict)
  | expire (c : ConnId) (i : Nat)
  | runWait (c : ConnId) (i : Nat) (verdict : Verdict)

/-- Only an error on a closed connection. -/
def allowedResult (closed : Bool) : Except Bytes Unit → Bool
  | .ok _ => !closed
  | .error _ => true

namespace ReadOp

/-- The result of a pending read once the buffer is `input`, if it completes. -/
def completion (op : ReadOp) (input : Bytes) : Option (Except Bytes Nat) :=
  match op.wanted with
  | none => (find crlf input).map .ok
  | some n => if n ≤ input.length then some (.ok n) else none

/-- How much a socket read may append: `transfer_exactly` reads no further. -/
def admits (op : ReadOp) (input bytes : Bytes) : Bool :=
  match op.wanted with
  | none => bytes ≠ []
  | some n => bytes ≠ [] ∧ (input ++ bytes).length ≤ n

end ReadOp

namespace World

/-- A socket read of `bytes` for the `i`-th outstanding read. -/
def receive (w : World) (c : ConnId) (i : Nat) (op : ReadOp) (bytes : Bytes) : World :=
  w.modConn c fun k =>
    { k with
      input := k.input ++ bytes
      reads := k.reads.set i { op with result := op.completion (k.input ++ bytes) } }

/-- What an event does, `none` where it cannot happen. -/
def apply (w : World) : Event → Option World
  | .request q stall => some (w.request q stall)
  | .next => some (w.nextThen .hold)
  | .release c =>
    if c ∈ w.held then some ({ w with held := w.held.erase c }.release c) else none
  | .close c =>
    if c < w.pool.created ∧ (w.conns c).setup.isNone then some (w.close c) else none
  | .remove c => if c < w.pool.created then some (w.remove c) else none
  | .maxConnections n => some { w with pool := { w.pool with maxConnections := n } }
  | .limitConnections b => some { w with pool := { w.pool with limitConnections := b } }
  | .setupDone c result =>
    match (w.conns c).setup with
    | some ⟨stage, none⟩ =>
      if c < w.pool.created ∧ allowedResult (w.conns c).closed result then
        some (w.modConn c fun k => { k with setup := some ⟨stage, some result⟩ })
      else none
    | _ => none
  | .runSetup c =>
    match (w.conns c).setup with
    | some ⟨stage, some result⟩ =>
      some ((w.modConn c fun k => { k with setup := none }).finishSetup c stage result)
    | _ => none
  | .receive c i bytes =>
    match (w.conns c).reads[i]? with
    | some op =>
      if op.result.isNone ∧ (w.conns c).closed = false ∧ op.admits (w.conns c).input bytes then
        some (w.receive c i op bytes)
      else none
    | none => none
  | .readFails c i err =>
    match (w.conns c).reads[i]? with
    | some op =>
      if op.result.isNone then
        some (w.modConn c fun k =>
          { k with reads := k.reads.set i { op with result := some (.error err) } })
      else none
    | none => none
  | .runRead c i v =>
    match (w.conns c).reads[i]? with
    | some op =>
      match op.result with
      | some result =>
        some ((w.modConn c fun k => { k with reads := k.reads.eraseIdx i }).finishRead c op
          result v)
      | none => none
    | none => none
  | .writeDone c i result =>
    match (w.conns c).writes[i]? with
    | some op =>
      if op.result.isNone ∧ allowedResult (w.conns c).closed result then
        some (w.modConn c fun k =>
          { k with writes := k.writes.set i { op with result := some result } })
      else none
    | none => none
  | .runWrite c i v =>
    match (w.conns c).writes[i]? with
    | some op =>
      match op.result with
      | some result =>
        some ((w.modConn c fun k => { k with writes := k.writes.eraseIdx i }).finishWrite c
          result v)
      | none => none
    | none => none
  | .expire c i =>
    match (w.conns c).waits[i]? with
    | some t =>
      if t.status = .pending then
        some (w.modConn c fun k =>
          { k with waits := k.waits.set i { t with status := .expired } })
      else none
    | none => none
  | .runWait c i v =>
    match (w.conns c).waits[i]? with
    | some t =>
      if t.status = .pending then none
      else
        some ((w.modConn c fun k => { k with waits := k.waits.eraseIdx i }).finishWait c t v)
    | none => none

/-- One step; after a fault there is none. -/
def step (w : World) (e : Event) : Option World :=
  match w.fault with
  | none => w.apply e
  | some _ => none

/-! ## When an event can happen, and what it does -/

/-- The handler of the `i`-th wait sees it expired. -/
def expires (w : World) (c : ConnId) (i : Nat) : Bool :=
  match (w.conns c).waits[i]? with
  | some t => t.status == .expired
  | none => false

/-- The handler of the attempt to connect sees it failed. -/
def setupFails (w : World) (c : ConnId) : Bool :=
  match (w.conns c).setup with
  | some ⟨_, some (.error _)⟩ => true
  | _ => false

section inversion

variable {w w' : World} {c : ConnId} {i : Nat} {v : Verdict}

theorem step_eq_some {e : Event} (h : w.step e = some w') :
    w.fault = none ∧ w.apply e = some w' := by
  rw [step] at h
  split at h
  · exact ⟨by assumption, h⟩
  · cases h

theorem release_inv (h : w.apply (.release c) = some w') :
    c ∈ w.held ∧ w' = ({ w with held := w.held.erase c } : World).release c := by
  obtain ⟨hc, h⟩ := Option.ite_none_right_eq_some.mp h
  exact ⟨hc, (Option.some.inj h).symm⟩

theorem close_inv (h : w.apply (.close c) = some w') :
    c < w.pool.created ∧ (w.conns c).setup = none ∧ w' = w.close c := by
  obtain ⟨⟨hc, hs⟩, h⟩ := Option.ite_none_right_eq_some.mp h
  exact ⟨hc, Option.isNone_iff_eq_none.mp hs, (Option.some.inj h).symm⟩

theorem remove_inv (h : w.apply (.remove c) = some w') :
    c < w.pool.created ∧ w' = w.remove c := by
  obtain ⟨hc, h⟩ := Option.ite_none_right_eq_some.mp h
  exact ⟨hc, (Option.some.inj h).symm⟩

theorem setupDone_inv {result : Except Bytes Unit} (h : w.apply (.setupDone c result) = some w') :
    ∃ stage, (w.conns c).setup = some ⟨stage, none⟩ ∧ c < w.pool.created ∧
      allowedResult (w.conns c).closed result = true ∧
      w' = w.modConn c fun k => { k with setup := some ⟨stage, some result⟩ } := by
  simp only [apply] at h
  split at h
  · rename_i stage hs
    obtain ⟨⟨hc, hr⟩, h⟩ := Option.ite_none_right_eq_some.mp h
    exact ⟨stage, hs, hc, hr, (Option.some.inj h).symm⟩
  · cases h

theorem runSetup_inv (h : w.apply (.runSetup c) = some w') :
    ∃ stage result, (w.conns c).setup = some ⟨stage, some result⟩ ∧
      w' = (w.modConn c fun k => { k with setup := none }).finishSetup c stage result := by
  simp only [apply] at h
  split at h
  · rename_i stage result hs
    exact ⟨stage, result, hs, (Option.some.inj h).symm⟩
  · cases h

theorem receive_inv {bytes : Bytes} (h : w.apply (.receive c i bytes) = some w') :
    ∃ op, (w.conns c).reads[i]? = some op ∧ op.result = none ∧ (w.conns c).closed = false ∧
      op.admits (w.conns c).input bytes = true ∧ w' = w.receive c i op bytes := by
  simp only [apply] at h
  split at h
  · rename_i op hop
    obtain ⟨⟨hr, hc, ha⟩, h⟩ := Option.ite_none_right_eq_some.mp h
    exact ⟨op, hop, Option.isNone_iff_eq_none.mp hr, hc, ha, (Option.some.inj h).symm⟩
  · cases h

theorem readFails_inv {err : Bytes} (h : w.apply (.readFails c i err) = some w') :
    ∃ op, (w.conns c).reads[i]? = some op ∧ op.result = none ∧
      w' = w.modConn c fun k =>
        { k with reads := k.reads.set i { op with result := some (.error err) } } := by
  simp only [apply] at h
  split at h
  · rename_i op hop
    obtain ⟨hr, h⟩ := Option.ite_none_right_eq_some.mp h
    exact ⟨op, hop, Option.isNone_iff_eq_none.mp hr, (Option.some.inj h).symm⟩
  · cases h

theorem runRead_inv (h : w.apply (.runRead c i v) = some w') :
    ∃ op result, (w.conns c).reads[i]? = some op ∧ op.result = some result ∧
      w' = (w.modConn c fun k => { k with reads := k.reads.eraseIdx i }).finishRead c op
        result v := by
  simp only [apply] at h
  split at h
  · rename_i op hop
    split at h
    · rename_i result hr
      exact ⟨op, result, hop, hr, (Option.some.inj h).symm⟩
    · cases h
  · cases h

theorem writeDone_inv {result : Except Bytes Unit} (h : w.apply (.writeDone c i result) = some w') :
    ∃ op, (w.conns c).writes[i]? = some op ∧ op.result = none ∧
      allowedResult (w.conns c).closed result = true ∧
      w' = w.modConn c fun k =>
        { k with writes := k.writes.set i { op with result := some result } } := by
  simp only [apply] at h
  split at h
  · rename_i op hop
    obtain ⟨⟨hr, ha⟩, h⟩ := Option.ite_none_right_eq_some.mp h
    exact ⟨op, hop, Option.isNone_iff_eq_none.mp hr, ha, (Option.some.inj h).symm⟩
  · cases h

theorem runWrite_inv (h : w.apply (.runWrite c i v) = some w') :
    ∃ op result, (w.conns c).writes[i]? = some op ∧ op.result = some result ∧
      w' = (w.modConn c fun k => { k with writes := k.writes.eraseIdx i }).finishWrite c
        result v := by
  simp only [apply] at h
  split at h
  · rename_i op hop
    split at h
    · rename_i result hr
      exact ⟨op, result, hop, hr, (Option.some.inj h).symm⟩
    · cases h
  · cases h

theorem expire_inv (h : w.apply (.expire c i) = some w') :
    ∃ t, (w.conns c).waits[i]? = some t ∧ t.status = .pending ∧
      w' = w.modConn c fun k =>
        { k with waits := k.waits.set i { t with status := .expired } } := by
  simp only [apply] at h
  split at h
  · rename_i t ht
    obtain ⟨hs, h⟩ := Option.ite_none_right_eq_some.mp h
    exact ⟨t, ht, hs, (Option.some.inj h).symm⟩
  · cases h

theorem runWait_inv (h : w.apply (.runWait c i v) = some w') :
    ∃ t, (w.conns c).waits[i]? = some t ∧ t.status ≠ .pending ∧
      w' = (w.modConn c fun k => { k with waits := k.waits.eraseIdx i }).finishWait c t v := by
  simp only [apply] at h
  split at h
  · rename_i t ht
    split at h
    · cases h
    · rename_i hs
      exact ⟨t, ht, hs, (Option.some.inj h).symm⟩
  · cases h

end inversion

/-- A client that has done nothing yet, with any limit, transport and meaning of
`erase(end())`. -/
def init (eraseEnd : List (Option FutId) → List (Option FutId)) (tls limit : Bool) (max : Nat) :
    World :=
  { eraseEnd := eraseEnd, tls := tls
    pool := { limitConnections := limit, maxConnections := max } }

end World

end AsioProtocols
