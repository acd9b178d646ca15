import AsioProtocols.Amqp.Connection

/-!
# What the AMQP output keeps

At most one write is ever outstanding (`oneWrite_of_run`), whatever the socket
does: `writing_` is set exactly while one token is on its way round, as a task
that will start a write, as the write, or as the task its completion posted.

That nothing is lost and nothing is reordered needs three things of the steps
(`WritesWhole`). A write that the socket accepts only in part is never
finished: the completion handler does not look at `len`, so the rest is gone,
and `shortWrite_loses` is a run with such a write. A failed write is only
signalled, and the next data is written after it. And a spurious failure of
`compare_exchange_weak` leaves the data in `outgoing_` until somebody calls
`onData` again. Over the runs without these, **`lossFree_of_run`**: what the
socket accepted is a prefix of what it was given, and once everything has come
to rest it is all of it.
-/

namespace AsioProtocols

namespace StrandTask

/-- The tasks that belong to a write. -/
def ofWrite : StrandTask → Bool
  | insert _ => false
  | writeSome _ => true
  | written _ => true

/-- The data a task is about to put into `outgoing_`. -/
def inserted : StrandTask → Bytes
  | insert v => v
  | writeSome _ => []
  | written _ => []

/-- The data a task is about to give to the socket. -/
def offered : StrandTask → Bytes
  | insert _ => []
  | writeSome v => v
  | written _ => []

/-- The task will signal an error. -/
def failed : StrandTask → Bool
  | insert _ => false
  | writeSome _ => false
  | written (.error _) => true
  | written (.ok _) => false

end StrandTask

namespace SocketWrite

/-- The data of a write that has not ended. -/
def unsettled (w : SocketWrite) : Bytes := if w.result = none then w.data else []

/-- The write has ended with an error. -/
def failed (w : SocketWrite) : Bool :=
  match w.result with
  | some (.error _) => true
  | _ => false

end SocketWrite

namespace AmqpConnection

variable {s s' : AmqpConnection}

/-- The output is loss-free and ordered, over one write at a time. -/
structure LossFree (s : AmqpConnection) : Prop where
  ordered : s.accepted <+: s.given
  oneWrite : s.writes.length ≤ 1
  drained : s.active = true → s.connectionErrors = [] → s.strand = [] → s.writes = [] →
    s.accepted = s.given

/-! ## One token -/

/-- The writes, and the tasks that start or end one. -/
def tokens (s : AmqpConnection) : Nat := s.writes.length + s.strand.countP StrandTask.ofWrite

/-- `writing_` says where the token is, only an active connection has one, and
the assertion of `write_handler` has not failed. -/
structure OneToken (s : AmqpConnection) : Prop where
  tokens : s.tokens = s.writing.toNat
  active : s.writing = true → s.active = true
  alive : s.aborted = false

theorem OneToken.init : OneToken init := ⟨rfl, nofun, rfl⟩

theorem OneToken.writes_length (h : OneToken s) : s.writes.length ≤ 1 := by
  have htok := h.tokens
  have hle := Bool.toNat_le s.writing
  rw [AmqpConnection.tokens] at htok
  omega

/-- The write that an index names is the only one. -/
theorem OneToken.writes_eq (h : OneToken s) {i : Nat} {w : SocketWrite}
    (hw : s.writes[i]? = some w) : i = 0 ∧ s.writes = [w] := by
  have hlen := h.writes_length
  obtain ⟨hi, hget⟩ := List.getElem?_eq_some_iff.mp hw
  obtain ⟨x, hx⟩ := List.length_eq_one_iff.mp (show s.writes.length = 1 by omega)
  obtain rfl : i = 0 := by omega
  simp only [hx, List.getElem?_cons_zero, Option.some.injEq] at hw
  exact ⟨rfl, hw ▸ hx⟩

theorem OneToken.post_insert (h : OneToken s) (v : Bytes) : OneToken (s.post (.insert v)) where
  tokens := by
    have hsame : (s.post (.insert v)).tokens = s.tokens := by
      simp [post, AmqpConnection.tokens, StrandTask.ofWrite]
    exact hsame.trans h.tokens
  active := h.active
  alive := h.alive

theorem OneToken.onData (h : OneToken s) (v : Bytes) : OneToken (s.onData v) :=
  OneToken.post_insert (s := { s with given := s.given ++ v }) ⟨h.tokens, h.active, h.alive⟩ v

/-- `write_handler` on an active connection takes the token when it is free and
there is something to write. -/
theorem OneToken.writeHandler (h : OneToken s) (active : s.active = true) (weak : Bool) :
    OneToken (s.writeHandler weak) := by
  rw [AmqpConnection.writeHandler, if_neg (by simp [active])]
  by_cases hw : s.writing = true ∨ weak = true
  · rw [if_pos hw]
    exact h
  · rw [if_neg hw]
    have hfree : s.writing = false := by simpa using fun hwr => hw (.inl hwr)
    have htok := h.tokens
    rw [hfree] at htok
    by_cases ho : s.outgoing = []
    · rw [if_pos ho]
      exact ⟨htok, nofun, h.alive⟩
    · rw [if_neg ho]
      refine ⟨?_, fun _ => active, h.alive⟩
      have hzero : s.writes.length + s.strand.countP StrandTask.ofWrite = 0 := htok
      show s.writes.length + (s.strand ++ [StrandTask.writeSome s.outgoing]).countP StrandTask.ofWrite = 1
      rw [List.countP_append, ← Nat.add_assoc, hzero]
      rfl

theorem onData_foldl (P : AmqpConnection → Prop) (hP : ∀ {s} v, P s → P (s.onData v)) :
    ∀ (hello : List Bytes) {s : AmqpConnection}, P s → P (hello.foldl (fun s v => s.onData v) s)
  | [], _, h => h
  | v :: vs, _, h => onData_foldl P hP vs (hP v h)

theorem OneToken.setup (h : OneToken s) (hello : List Bytes) (weak : Bool) :
    OneToken (s.setup hello weak) := by
  obtain ⟨htok, hactive⟩ := onData_foldl (fun s => OneToken s ∧ s.active = true)
    (fun v h => ⟨h.1.onData v, h.2⟩) hello (s := { s with active := true })
    ⟨⟨h.tokens, fun _ => rfl, h.alive⟩, rfl⟩
  rw [AmqpConnection.setup]
  split
  · exact htok
  · exact htok.writeHandler hactive weak

theorem OneToken.runTask {t : StrandTask} {rest : List StrandTask} (h : OneToken s)
    (hs : s.strand = t :: rest) (weak : Bool) :
    OneToken ({ s with strand := rest }.runTask weak t) := by
  have htok : s.writes.length + (t :: rest).countP StrandTask.ofWrite = s.writing.toNat :=
    hs ▸ h.tokens
  cases t with
  | insert v =>
    have hpop : OneToken { s with strand := rest, outgoing := s.outgoing ++ v } :=
      ⟨htok, h.active, h.alive⟩
    rw [AmqpConnection.runTask]
    split
    · exact hpop.writeHandler ‹_› weak
    · exact hpop
  | writeSome v =>
    refine ⟨?_, h.active, h.alive⟩
    rw [List.countP_cons_of_pos (by rfl)] at htok
    show (s.writes ++ [SocketWrite.mk v none]).length + rest.countP StrandTask.ofWrite = s.writing.toNat
    rw [List.length_append, List.length_singleton]
    omega
  | written result =>
    -- the token is here, so the flag is set and the connection active
    rw [List.countP_cons_of_pos (by rfl)] at htok
    have hwriting : s.writing = true := by
      by_contra hne
      rw [Bool.not_eq_true] at hne
      rw [hne, Bool.toNat_false] at htok
      omega
    rw [hwriting, Bool.toNat_true] at htok
    have hfree : OneToken { s with strand := rest, writing := false } :=
      ⟨show s.writes.length + rest.countP StrandTask.ofWrite = 0 by omega, nofun, h.alive⟩
    cases result with
    | error message => exact ⟨hfree.tokens, hfree.active, hfree.alive⟩
    | ok n => exact hfree.writeHandler (h.active hwriting) weak

/-! ## Where a step leads -/

/-- A step of the socket, or the completion handler it leads to, needs a write. -/
theorem step_socketAccepts {i n : Nat} (h : step s (.socketAccepts i n) = some s') :
    ∃ data, s.writes[i]? = some ⟨data, none⟩ ∧ 1 ≤ n ∧ n ≤ data.length ∧
      s' = { s with writes := s.writes.set i ⟨data, some (.ok n)⟩
                    accepted := s.accepted ++ data.take n } := by
  simp only [step] at h
  split at h
  · cases h
  · split at h
    · rename_i data hw
      obtain ⟨⟨hn, hle⟩, h⟩ := Option.ite_none_right_eq_some.mp h
      exact ⟨data, hw, hn, hle, (Option.some.inj h).symm⟩
    · cases h

theorem step_socketFails {i : Nat} {message : Bytes}
    (h : step s (.socketFails i message) = some s') :
    ∃ data, s.writes[i]? = some ⟨data, none⟩ ∧
      s' = { s with writes := s.writes.set i ⟨data, some (.error message)⟩, broken := true } := by
  simp only [step] at h
  split at h
  · cases h
  · split at h
    · rename_i data hw
      exact ⟨data, hw, (Option.some.inj h).symm⟩
    · cases h

theorem step_writeCompleted {i : Nat} (h : step s (.writeCompleted i) = some s') :
    ∃ data result, s.writes[i]? = some ⟨data, some result⟩ ∧
      s' = { s with writes := s.writes.eraseIdx i }.post (.written result) := by
  simp only [step] at h
  split at h
  · cases h
  · split at h
    · rename_i data result hw
      exact ⟨data, result, hw, (Option.some.inj h).symm⟩
    · cases h

theorem step_runStrand {weak : Bool} (h : step s (.runStrand weak) = some s') :
    ∃ t rest, s.strand = t :: rest ∧ s' = { s with strand := rest }.runTask weak t := by
  simp only [step] at h
  split at h
  · cases h
  · split at h
    · cases h
    · rename_i t rest hs
      exact ⟨t, rest, hs, (Option.some.inj h).symm⟩

theorem OneToken.step {e : AmqpEvent} (h : OneToken s) (hstep : step s e = some s') :
    OneToken s' := by
  cases e with
  | setup hello weak =>
    rw [AmqpConnection.step, if_neg (by simp [h.alive])] at hstep
    exact Option.some.inj hstep ▸ h.setup hello weak
  | onData v =>
    rw [AmqpConnection.step, if_neg (by simp [h.alive])] at hstep
    exact Option.some.inj hstep ▸ h.onData v
  | runStrand weak =>
    obtain ⟨t, rest, hs, rfl⟩ := step_runStrand hstep
    exact h.runTask hs weak
  | socketAccepts i n =>
    obtain ⟨data, -, -, -, rfl⟩ := step_socketAccepts hstep
    refine ⟨Eq.trans ?_ h.tokens, h.active, h.alive⟩
    simp [AmqpConnection.tokens]
  | socketFails i message =>
    obtain ⟨data, -, rfl⟩ := step_socketFails hstep
    refine ⟨Eq.trans ?_ h.tokens, h.active, h.alive⟩
    simp [AmqpConnection.tokens]
  | writeCompleted i =>
    obtain ⟨data, result, hw, rfl⟩ := step_writeCompleted hstep
    obtain ⟨rfl, hwrites⟩ := h.writes_eq hw
    refine ⟨Eq.trans ?_ h.tokens, h.active, h.alive⟩
    simp [AmqpConnection.tokens, post, hwrites, StrandTask.ofWrite, Nat.add_comm]

/-- **One write at a time**, in every run whatever the socket answers; the
assertion of `write_handler` never fails. -/
theorem oneWrite_of_run (run : Run AmqpConnection.step anyEvent init s) :
    s.writes.length ≤ 1 ∧ s.aborted = false := by
  have h : OneToken s := run.invariant OneToken.init fun h _ hstep => h.step hstep
  exact ⟨h.writes_length, h.alive⟩

/-! ## Where the bytes are -/

/-- The data of the writes that have not ended, then of the tasks that will
start one. -/
def inFlight (s : AmqpConnection) : Bytes :=
  s.writes.flatMap SocketWrite.unsettled ++ s.strand.flatMap StrandTask.offered

/-- The data that is still on its way into `outgoing_`. -/
def queued (s : AmqpConnection) : Bytes := s.strand.flatMap StrandTask.inserted

/-- An error is signalled, or on its way to be. -/
def failing (s : AmqpConnection) : Bool :=
  !s.connectionErrors.isEmpty || (s.writes.any SocketWrite.failed || s.strand.any StrandTask.failed)

/-- Every byte given is accepted, in flight, in `outgoing_` or on its way there,
in this order, until a write fails, which is signalled in the end. -/
structure Accounted (s : AmqpConnection) : Prop where
  ordered : s.accepted <+: s.given
  balance : s.broken = false → s.accepted ++ (s.inFlight ++ (s.outgoing ++ s.queued)) = s.given
  failure : s.failing = s.broken

/-- An active connection that is not writing has nothing to write. -/
def Drained (s : AmqpConnection) : Prop :=
  s.broken = false → s.active = true → s.writing = false → s.outgoing = []

theorem LossFree.of_accounted (token : OneToken s) (h : Accounted s) (drained : Drained s) :
    LossFree s where
  ordered := h.ordered
  oneWrite := token.writes_length
  drained := by
    intro hactive herrors hstrand hwrites
    have hunbroken : s.broken = false := by
      rw [← h.failure, failing, herrors, hstrand, hwrites]
      rfl
    have hidle : s.writing = false := by
      have htok := token.tokens
      rw [AmqpConnection.tokens, hwrites, hstrand] at htok
      simpa using htok.symm
    have hbalance := h.balance hunbroken
    rw [inFlight, queued, drained hunbroken hactive hidle, hwrites, hstrand] at hbalance
    simpa using hbalance

theorem Accounted.init : Accounted init := ⟨List.prefix_rfl, fun _ => rfl, rfl⟩

theorem Accounted.onData (h : Accounted s) (v : Bytes) : Accounted (s.onData v) where
  ordered := h.ordered.trans (List.prefix_append _ _)
  balance := by
    intro hb
    show s.accepted ++ (s.writes.flatMap _ ++ (s.strand ++ [_]).flatMap _ ++
      (s.outgoing ++ (s.strand ++ [_]).flatMap _)) = s.given ++ v
    rw [← h.balance hb, inFlight, queued]
    simp [StrandTask.offered, StrandTask.inserted]
  failure := by
    refine Eq.trans ?_ h.failure
    simp [AmqpConnection.onData, post, failing, StrandTask.failed]

/-- `write_handler` moves `outgoing_` behind what is in flight. -/
theorem Accounted.writeHandler (h : Accounted s) (weak : Bool) :
    Accounted (s.writeHandler weak) := by
  rw [AmqpConnection.writeHandler]
  by_cases ha : s.active = false
  · rw [if_pos ha]
    exact ⟨h.ordered, h.balance, h.failure⟩
  rw [if_neg ha]
  by_cases hw : s.writing = true ∨ weak = true
  · rw [if_pos hw]
    exact h
  rw [if_neg hw]
  by_cases ho : s.outgoing = []
  · rw [if_pos ho]
    exact ⟨h.ordered, h.balance, h.failure⟩
  rw [if_neg ho]
  refine ⟨h.ordered, fun hb => ?_, Eq.trans ?_ h.failure⟩
  · show s.accepted ++ (s.writes.flatMap _ ++ (s.strand ++ [_]).flatMap _ ++
      ([] ++ (s.strand ++ [_]).flatMap _)) = s.given
    rw [← h.balance hb, inFlight, queued]
    simp [StrandTask.offered, StrandTask.inserted]
  · simp [post, failing, StrandTask.failed]

/-- After `write_handler` the connection is drained, unless the exchange failed
on a free flag with something to write. -/
theorem Drained.writeHandler {weak : Bool}
    (hweak : weak = true → s.broken = true ∨ s.writing = true ∨ s.outgoing = []) :
    Drained (s.writeHandler weak) := by
  rw [AmqpConnection.writeHandler]
  by_cases ha : s.active = false
  · rw [if_pos ha]
    intro _ hact
    exact absurd (show s.active = true from hact) (by simp [ha])
  rw [if_neg ha]
  by_cases hw : s.writing = true ∨ weak = true
  · rw [if_pos hw]
    intro hb _ hidle
    rcases hw with hw | hw
    · exact absurd hw (by simp [hidle])
    · rcases hweak hw with h | h | h
      · exact absurd h (by simp [hb])
      · exact absurd h (by simp [hidle])
      · exact h
  rw [if_neg hw]
  by_cases ho : s.outgoing = []
  · rw [if_pos ho]
    exact fun _ _ _ => ho
  · rw [if_neg ho]
    exact fun _ _ _ => rfl

/-! ## Steps on which nothing is lost -/

/-- The task calls `write_handler` with the flag free and something to write. -/
def StartsWrite (s : AmqpConnection) : StrandTask → Prop
  | .insert v => s.active = true ∧ s.writing = false ∧ s.outgoing ++ v ≠ []
  | .writeSome _ => False
  | .written (.error _) => False
  | .written (.ok _) => s.outgoing ≠ []

/-- No spurious failure of the exchange where a write should start, no write
after a failed one, and no write accepted only in part. -/
def WritesWhole (s : AmqpConnection) : AmqpEvent → Prop
  | .setup _ weak => weak = true → s.broken = true ∨ s.writing = true ∨ s.outgoing = []
  | .onData _ => True
  | .runStrand weak => weak = true → s.broken = true ∨ ∀ t ∈ s.strand.head?, ¬ StartsWrite s t
  | .socketAccepts i n => s.broken = false ∧ ∀ w ∈ s.writes[i]?, n = w.data.length
  | .socketFails _ _ => True
  | .writeCompleted _ => True

/-- All that a run keeps. -/
structure Kept (s : AmqpConnection) : Prop where
  token : OneToken s
  accounted : Accounted s
  drained : Drained s

theorem Kept.init : Kept init := ⟨OneToken.init, Accounted.init, fun _ _ _ => rfl⟩

theorem Kept.setup (h : Kept s) (hello : List Bytes) {weak : Bool}
    (hweak : weak = true → s.broken = true ∨ s.writing = true ∨ s.outgoing = []) :
    Accounted (s.setup hello weak) ∧ Drained (s.setup hello weak) := by
  -- the library's first output is only posted, so `write_handler` sees the old fields
  obtain ⟨hacc, hb, hw, ho⟩ := onData_foldl (fun t => Accounted t ∧ t.broken = s.broken ∧
    t.writing = s.writing ∧ t.outgoing = s.outgoing) (fun v h => ⟨h.1.onData v, h.2⟩) hello
    (s := { s with active := true })
    ⟨⟨h.accounted.ordered, h.accounted.balance, h.accounted.failure⟩, rfl, rfl, rfl⟩
  constructor
  · rw [AmqpConnection.setup]
    split
    · exact hacc
    · exact hacc.writeHandler weak
  · rw [AmqpConnection.setup]
    split
    · rename_i hempty
      exact fun _ _ _ => hempty
    · exact Drained.writeHandler (by rwa [hb, hw, ho])

/-- Off the strand with its first task. -/
theorem Accounted.pop {t : StrandTask} {rest : List StrandTask} (h : Accounted s)
    (hs : s.strand = t :: rest) :
    (s.broken = false → s.accepted ++ (s.writes.flatMap SocketWrite.unsettled ++
      (t.offered ++ rest.flatMap StrandTask.offered) ++
      (s.outgoing ++ (t.inserted ++ rest.flatMap StrandTask.inserted))) = s.given) ∧
    (!s.connectionErrors.isEmpty || (s.writes.any SocketWrite.failed ||
      (t.failed || rest.any StrandTask.failed))) = s.broken := by
  obtain ⟨-, hbalance, hfailure⟩ := h
  rw [failing, hs] at hfailure
  rw [inFlight, queued, hs] at hbalance
  exact ⟨hbalance, hfailure⟩

theorem Accounted.runTask {t : StrandTask} {rest : List StrandTask} (h : Accounted s)
    (hs : s.strand = t :: rest) (weak : Bool) :
    Accounted ({ s with strand := rest }.runTask weak t) := by
  obtain ⟨hbalance, hfailure⟩ := h.pop hs
  cases t with
  | insert v =>
    have hpop : Accounted { s with strand := rest, outgoing := s.outgoing ++ v } := by
      refine ⟨h.ordered, fun hb => ?_, hfailure⟩
      rw [← hbalance hb]
      simp [inFlight, queued, StrandTask.offered, StrandTask.inserted]
    rw [AmqpConnection.runTask]
    split
    · exact hpop.writeHandler weak
    · exact hpop
  | writeSome v =>
    refine ⟨h.ordered, fun hb => ?_, Eq.trans ?_ hfailure⟩
    · rw [← hbalance hb]
      simp [AmqpConnection.runTask, inFlight, queued, StrandTask.offered, StrandTask.inserted,
        SocketWrite.unsettled]
    · simp [AmqpConnection.runTask, failing, StrandTask.failed, SocketWrite.failed]
  | written result =>
    cases result with
    | error message =>
      refine ⟨h.ordered, hbalance, Eq.trans ?_ hfailure⟩
      simp [AmqpConnection.runTask, failing, StrandTask.failed]
    | ok n =>
      exact Accounted.writeHandler (s := { s with strand := rest, writing := false })
        ⟨h.ordered, hbalance, hfailure⟩ weak

theorem Drained.runTask {t : StrandTask} {rest : List StrandTask} (h : Drained s)
    (accounted : Accounted s) (hs : s.strand = t :: rest) {weak : Bool}
    (hweak : weak = true → s.broken = true ∨ ¬ StartsWrite s t) :
    Drained ({ s with strand := rest }.runTask weak t) := by
  cases t with
  | insert v =>
    rw [AmqpConnection.runTask]
    split
    · rename_i hactive
      refine Drained.writeHandler fun hwk => (hweak hwk).imp_right fun hno => ?_
      by_contra hboth
      rw [not_or, Bool.not_eq_true] at hboth
      exact hno ⟨hactive, hboth⟩
    · rename_i hactive
      exact fun _ hact => absurd hact hactive
  | writeSome v => exact h
  | written result =>
    cases result with
    | error message =>
      -- the write this task belongs to has failed
      have hbroken : s.broken = true := by
        rw [← (accounted.pop hs).2]
        simp [StrandTask.failed]
      exact fun hb => absurd (show s.broken = false from hb) (by simp [hbroken])
    | ok n => exact Drained.writeHandler fun hwk => (hweak hwk).imp_right fun hno => .inr (not_not.mp hno)

theorem Kept.step {e : AmqpEvent} (h : Kept s) (hok : WritesWhole s e)
    (hstep : step s e = some s') : Kept s' := by
  suffices hrest : Accounted s' ∧ Drained s' from ⟨h.token.step hstep, hrest.1, hrest.2⟩
  have halive : ¬ s.aborted = true := by simp [h.token.alive]
  cases e with
  | setup hello weak =>
    rw [AmqpConnection.step, if_neg halive] at hstep
    exact Option.some.inj hstep ▸ h.setup hello hok
  | onData v =>
    rw [AmqpConnection.step, if_neg halive] at hstep
    exact Option.some.inj hstep ▸ ⟨h.accounted.onData v, h.drained⟩
  | runStrand weak =>
    obtain ⟨t, rest, hs, rfl⟩ := step_runStrand hstep
    have hweak : weak = true → s.broken = true ∨ ¬ StartsWrite s t := by
      intro hwk
      exact (hok hwk).imp_right fun hno => hno t (by rw [hs]; rfl)
    exact ⟨h.accounted.runTask hs weak, h.drained.runTask h.accounted hs hweak⟩
  | socketAccepts i n =>
    obtain ⟨data, hw, -, -, rfl⟩ := step_socketAccepts hstep
    obtain ⟨rfl, hwrites⟩ := h.token.writes_eq hw
    obtain ⟨hunbroken, hwhole⟩ := hok
    obtain rfl : n = data.length := hwhole _ hw
    refine ⟨?_, h.drained⟩
    -- the bytes of the write move from the socket's queue to the accepted ones
    have hbalance := h.accounted.balance hunbroken
    have hfailure := h.accounted.failure
    rw [inFlight, hwrites] at hbalance
    rw [failing, hwrites] at hfailure
    have hall : (s.accepted ++ data) ++ (s.strand.flatMap StrandTask.offered ++
        (s.outgoing ++ s.queued)) = s.given := by
      rw [← hbalance]
      simp [SocketWrite.unsettled]
    rw [hwrites, List.take_length]
    refine ⟨⟨_, hall⟩, fun _ => Eq.trans ?_ hall, hfailure⟩
    simp [inFlight, SocketWrite.unsettled]
    rfl
  | socketFails i message =>
    obtain ⟨data, hw, rfl⟩ := step_socketFails hstep
    obtain ⟨rfl, hwrites⟩ := h.token.writes_eq hw
    -- from here on the connection is broken, and nothing is said of what is left
    refine ⟨⟨h.accounted.ordered, nofun, ?_⟩, nofun⟩
    simp [failing, hwrites, SocketWrite.failed]
  | writeCompleted i =>
    obtain ⟨data, result, hw, rfl⟩ := step_writeCompleted hstep
    obtain ⟨rfl, hwrites⟩ := h.token.writes_eq hw
    -- the only write makes place for the only task that it posts
    refine ⟨⟨h.accounted.ordered, fun hb => ?_, Eq.trans ?_ h.accounted.failure⟩, h.drained⟩
    · refine Eq.trans ?_ (h.accounted.balance hb)
      simp [inFlight, queued, post, hwrites, SocketWrite.unsettled, StrandTask.offered,
        StrandTask.inserted]
    · cases result with
      | error m => simp [failing, post, hwrites, SocketWrite.failed, StrandTask.failed]
      | ok n => simp [failing, post, hwrites, SocketWrite.failed, StrandTask.failed]

/-- **No byte is lost and none overtakes another**, over the runs in which each
write is accepted as a whole. -/
theorem lossFree_of_run (run : Run AmqpConnection.step WritesWhole init s) : LossFree s := by
  have h : Kept s := run.invariant Kept.init fun h hok hstep => h.step hok hstep
  exact .of_accounted h.token h.accounted h.drained

/-- One write from `onData` to the task its completion posts, of which the
socket accepts `n` bytes. -/
def writeOnce (v : Bytes) (n : Nat) : List AmqpEvent :=
  [.onData v, .runStrand false, .runStrand false, .socketAccepts 0 n, .writeCompleted 0,
    .runStrand false]

/-- The first byte of two is accepted, and the second never offered again. -/
theorem shortWrite_loses :
    ∃ s, Run AmqpConnection.step anyEvent init s ∧ s.active = true ∧ s.connectionErrors = [] ∧
      s.strand = [] ∧ s.writes = [] ∧ s.given = ascii "ab" ∧ s.accepted = ascii "a" ∧
      ¬ LossFree s := by
  let lost : AmqpConnection :=
    { init with active := true, given := ascii "ab", accepted := ascii "a" }
  have hrun : exec AmqpConnection.step init (.setup [] false :: writeOnce (ascii "ab") 1) =
      some lost := rfl
  refine ⟨lost, .of_exec (fun _ _ => trivial) _ hrun, rfl, rfl, rfl, rfl, rfl, rfl, fun h => ?_⟩
  exact absurd (h.drained rfl rfl rfl rfl) (by decide)

instance (s : AmqpConnection) (t : StrandTask) : Decidable (StartsWrite s t) :=
  match t with
  | .insert _ => inferInstanceAs (Decidable (_ ∧ _ ∧ _))
  | .writeSome _ => inferInstanceAs (Decidable False)
  | .written (.error _) => inferInstanceAs (Decidable False)
  | .written (.ok _) => inferInstanceAs (Decidable (_ ≠ _))

instance (s : AmqpConnection) (e : AmqpEvent) : Decidable (WritesWhole s e) :=
  match e with
  | .setup _ _ => inferInstanceAs (Decidable (_ → _ ∨ _ ∨ _))
  | .onData _ => inferInstanceAs (Decidable True)
  | .runStrand _ => inferInstanceAs (Decidable (_ → _ ∨ ∀ _ ∈ _, ¬ _))
  | .socketAccepts _ _ => inferInstanceAs (Decidable (_ ∧ ∀ _ ∈ _, _))
  | .socketFails _ _ => inferInstanceAs (Decidable True)
  | .writeCompleted _ => inferInstanceAs (Decidable True)

/-- Data from before `setup`, from the library while it is set up, and from
after, each accepted as a whole. -/
theorem lossFree_threeWrites :
    ∃ s, s.given = ascii "abc" ∧ s.accepted = ascii "abc" ∧ LossFree s := by
  let sent : AmqpConnection :=
    { init with active := true, given := ascii "abc", accepted := ascii "abc" }
  have hrun : exec (guarded AmqpConnection.step WritesWhole) init
      ([.onData (ascii "a"), .runStrand false, .setup [ascii "b"] false, .runStrand false,
        .runStrand false, .socketAccepts 0 1, .writeCompleted 0, .runStrand false,
        .runStrand false, .socketAccepts 0 1, .writeCompleted 0, .runStrand false] ++
        writeOnce (ascii "c") 1) = some sent := rfl
  exact ⟨sent, rfl, rfl, lossFree_of_run (Run.of_guarded _ hrun)⟩

end AmqpConnection

end AsioProtocols
