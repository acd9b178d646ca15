import AsioProtocols.Http.World

/-!
# What the handlers can do

One lemma for each function of `Http/World.lean`, saying all the ways it can
come out in terms of the record updates it makes. The invariants of the modules
behind this one are proved from these lemmas and never unfold a handler again.

The handlers of completed reads have one shape: some work on the parser state of
the connection and on the response, and then one of a few endings; `ReadOutcome`
lists them.
-/

namespace AsioProtocols

open Function

/-- The record of a connection after `write_request`. -/
def Conn.carrying (k : Conn) (r : RespId) (a : AttemptId) (stall : Nat) (data : Bytes) : Conn :=
  { k with
      res := some r
      attempt := some a
      closedThen := k.closed
      waits := k.waits.map Wait.cancel ++ [{ target := stall }]
      writes := k.writes ++ [{ data := data }] }

/-- The record of an open connection after `close()`. -/
def Conn.shut (k : Conn) : Conn :=
  { k with valid := false, closed := true, waits := k.waits.map Wait.cancel }

namespace World

variable (w : World) (c : ConnId)

/-- The futures of the responses, and whether the program has stopped. -/
def futures : Completions × Option Fault := (w.completions, w.fault)

/-! ## Updates of one record -/

theorem conns_modConn (f : Conn → Conn) :
    (w.modConn c f).conns = update w.conns c (f (w.conns c)) := rfl

/-- Two changes of one record are one. -/
theorem modConn_modConn (f g : Conn → Conn) :
    (w.modConn c f).modConn c g = w.modConn c fun k => g (f k) := by
  simp [modConn]

/-! ## Handing out -/

theorem hand_writeRequest (r : RespId) : w.hand c [.writeRequest r] =
    { w with
        conns := update w.conns c ((w.conns c).carrying r (w.completions.current r)
          (w.responses r).stallTimeout (w.responses r).request.bytes)
        log := w.log ++ [.handed c (w.conns c).res (w.conns c).closed,
          .assigned c r (w.completions.current r) (w.conns c).res] } := by
  simp [hand, runTask, writeRequest, extendTimer, stallTarget, modConn, note, Conn.carrying]

/-- What at most one callback can do with a connection. -/
theorem hand_cases {P : World → Prop} {tasks : List ClientTask} (h : tasks.length ≤ 1)
    (nil : P (w.hand c [])) (hold : P (w.hand c [.hold]))
    (writeRequest : ∀ r, tasks = [.writeRequest r] → P (w.hand c [.writeRequest r])) :
    P (w.hand c tasks) := by
  match tasks, h with
  | [], _ => exact nil
  | [.hold], _ => exact hold
  | [.writeRequest r], _ => exact writeRequest r rfl
  | _ :: _ :: _, h => simp at h

@[simp] theorem futures_hand (tasks : List ClientTask) :
    (w.hand c tasks).futures = w.futures := by
  refine List.foldlRecOn (motive := fun u : World => u.futures = w.futures) tasks _ rfl ?_
  rintro u hu (r | _) -
  · exact hu
  · exact hu

@[simp] theorem pool_hand (tasks : List ClientTask) : (w.hand c tasks).pool = w.pool := by
  refine List.foldlRecOn (motive := fun u : World => u.pool = w.pool) tasks _ rfl ?_
  rintro u hu (r | _) -
  · exact hu
  · exact hu

/-- Handing on adds to the history and leaves the responses alone. -/
theorem contents_hand (tasks : List ClientTask) : w.log <+: (w.hand c tasks).log ∧
    (w.hand c tasks).statusFrom = w.statusFrom := by
  refine List.foldlRecOn
    (motive := fun u : World => w.log <+: u.log ∧ u.statusFrom = w.statusFrom) tasks _
    ⟨List.prefix_append _ _, rfl⟩ ?_
  rintro u ⟨hlog, hs⟩ (r | _) -
  · exact ⟨hlog.trans (List.prefix_append _ _), hs⟩
  · exact ⟨hlog, hs⟩

/-- Handing on a connection leaves the others alone. -/
theorem conns_hand_of_ne {d : ConnId} (hne : d ≠ c) (tasks : List ClientTask) :
    (w.hand c tasks).conns d = w.conns d := by
  refine List.foldlRecOn (motive := fun u : World => u.conns d = w.conns d) tasks _ rfl ?_
  rintro u hu (r | _) -
  · simp only [runTask, writeRequest, extendTimer, modConn, note, update_of_ne hne]
    exact hu
  · exact hu

/-- `release()` with nobody waiting: the connection becomes available. -/
theorem release_of_nil (h : w.pool.next_ = []) : w.release c =
    { w with pool := { w.pool with available := w.pool.available ++ [c] } } := by
  simp only [release, Pool.release, h]

/-- `release()` with a request waiting: the front one gets the connection. -/
theorem release_of_cons {q : QueueId} {rest : List QueueId} (h : w.pool.next_ = q :: rest)
    (hp : (w.pool.queued q).outcome = none) : w.release c =
    { w with pool := { w.pool with
        next_ := rest
        queued := update w.pool.queued q { outcome := some (.done c), tasks := [] } } }.hand c
      (w.pool.queued q).tasks := by
  simp only [release, Pool.release, h, settleQueued, Future.settle_of_pending hp]

/-- Releasing settles futures of the pool only, and those of queued requests are
pending. -/
theorem futures_release (h : ∀ q ∈ w.pool.next_, (w.pool.queued q).outcome = none) :
    (w.release c).futures = w.futures := by
  rcases hn : w.pool.next_ with _ | ⟨q, rest⟩
  · rw [release_of_nil w c hn]
    rfl
  · rw [release_of_cons w c hn (h q (by simp [hn])), futures_hand]
    rfl

theorem contents_release (h : ∀ q ∈ w.pool.next_, (w.pool.queued q).outcome = none) :
    w.log <+: (w.release c).log ∧ (w.release c).statusFrom = w.statusFrom := by
  rcases hn : w.pool.next_ with _ | ⟨q, rest⟩
  · rw [release_of_nil w c hn]
    exact ⟨List.prefix_rfl, rfl⟩
  · rw [release_of_cons w c hn (h q (by simp [hn]))]
    obtain ⟨hlog, hs⟩ := contents_hand { w with pool := { w.pool with
      next_ := rest
      queued := update w.pool.queued q { outcome := some (.done c), tasks := [] } } } c
      (w.pool.queued q).tasks
    exact ⟨hlog, hs⟩

/-- A response on a released connection that it did not carry before comes from
the queue. -/
theorem res_release (h : ∀ q ∈ w.pool.next_, (w.pool.queued q).outcome = none)
    (hone : ∀ q, (w.pool.queued q).tasks.length ≤ 1) {r : RespId}
    (hr : ((w.release c).conns c).res = some r) :
    (w.conns c).res = some r ∨ ∃ q, .writeRequest r ∈ (w.pool.queued q).tasks := by
  rcases hn : w.pool.next_ with _ | ⟨q, rest⟩
  · rw [release_of_nil w c hn] at hr
    exact .inl hr
  · rw [release_of_cons w c hn (h q (by simp [hn]))] at hr
    match ht : (w.pool.queued q).tasks, hone q with
    | [], _ =>
      rw [ht] at hr
      exact .inl hr
    | [.hold], _ =>
      rw [ht] at hr
      exact .inl hr
    | [.writeRequest s], _ =>
      rw [ht, hand_writeRequest] at hr
      simp only [update_self, Conn.carrying, Option.some.injEq] at hr
      exact .inr ⟨q, by simp [ht, hr]⟩
    | _ :: _ :: _, hlen => simp at hlen

/-- `next()` with its callback hands over an available connection, or leaves the
callback on the future of a new connection or of a queued request. -/
theorem nextThen_cases (t : ClientTask) :
    (∃ d rest, w.pool.available.dropWhile (fun d => !w.isValid d) = d :: rest ∧
      w.isValid d = true ∧
      w.nextThen t = { w with pool := { w.pool with available := rest } }.hand d [t]) ∨
    (w.pool.available.dropWhile (fun d => !w.isValid d) = [] ∧ w.pool.canConnect = true ∧
      w.nextThen t = { w with pool := { w.pool with
        available := []
        created := w.pool.created + 1
        opened := update w.pool.opened w.pool.created { tasks := [.client t] }
        connections := w.pool.connections ++ [some w.pool.created] } }) ∨
    (w.pool.available.dropWhile (fun d => !w.isValid d) = [] ∧ w.pool.canConnect = false ∧
      w.nextThen t = { w with pool := { w.pool with
        available := []
        next_ := w.pool.next_ ++ [w.pool.nqueued]
        nqueued := w.pool.nqueued + 1
        queued := update w.pool.queued w.pool.nqueued { tasks := [t] } } }) := by
  rcases Pool.next_cases w.isValid w.pool with ⟨d, rest, hd, hv, hn⟩ | ⟨hd, hc, hn⟩ | ⟨hd, hc, hn⟩
  · exact .inl ⟨d, rest, hd, hv, by simp only [nextThen, next, hn, onDone]⟩
  · refine .inr (.inl ⟨hd, hc, ?_⟩)
    simp [nextThen, next, hn, onDone, Future.attach]
  · refine .inr (.inr ⟨hd, hc, ?_⟩)
    simp [nextThen, next, hn, onDone, Future.attach]

@[simp] theorem futures_nextThen (t : ClientTask) : (w.nextThen t).futures = w.futures := by
  rcases w.nextThen_cases t with ⟨d, rest, -, -, h⟩ | ⟨-, -, h⟩ | ⟨-, -, h⟩ <;>
    simp [h] <;> rfl

theorem completions_nextThen (t : ClientTask) : (w.nextThen t).completions = w.completions :=
  congrArg Prod.fst (w.futures_nextThen t)

/-- A connection that is not available is not handed on by `next()`. -/
theorem conns_nextThen (t : ClientTask) (hc : c ∉ w.pool.available) :
    (w.nextThen t).conns c = w.conns c := by
  rcases w.nextThen_cases t with ⟨d, rest, hd, -, h⟩ | ⟨-, -, h⟩ | ⟨-, -, h⟩ <;> rw [h]
  refine conns_hand_of_ne _ _ (fun he => hc ?_) _
  have hsub : (d :: rest).Sublist w.pool.available := hd ▸ List.dropWhile_sublist _
  exact he ▸ hsub.mem (by simp)

theorem created_nextThen (t : ClientTask) : w.pool.created ≤ (w.nextThen t).pool.created := by
  rcases w.nextThen_cases t with ⟨d, rest, -, -, h⟩ | ⟨-, -, h⟩ | ⟨-, -, h⟩ <;>
    simp [h]

/-- The future of a connection that is being established, with at most one
callback. -/
theorem settleOpened_cases (h : (w.pool.opened c).outcome = none)
    (htasks : (w.pool.opened c).tasks.length ≤ 1) :
    let w₁ := { w with pool := { w.pool with
      opened := update w.pool.opened c { outcome := some (.done c), tasks := [] } } }
    ((w.pool.opened c).tasks = [] ∧ w.settleOpened c = w₁) ∨
    (∃ t, (w.pool.opened c).tasks = [.client t] ∧ w.settleOpened c = w₁.hand c [t]) ∨
    ((w.pool.opened c).tasks = [.release] ∧ w.settleOpened c = w₁.release c) := by
  simp only [settleOpened, Future.settle_of_pending h]
  match ht : (w.pool.opened c).tasks, htasks with
  | [], _ => exact .inl ⟨rfl, rfl⟩
  | [.client t], _ => exact .inr (.inl ⟨t, rfl, rfl⟩)
  | [.release], _ => exact .inr (.inr ⟨rfl, rfl⟩)
  | _ :: _ :: _, h => simp at h

/-! ## Closing -/

theorem close_of_closed (h : (w.conns c).closed = true) :
    w.close c = { w with conns := update w.conns c { w.conns c with valid := false } } := by
  simp [close, h, modConn]

/-- Closing an open connection shuts it and takes it out of the pool; which of
the available ones are valid then does not matter to the invariants. -/
theorem close_of_open (h : (w.conns c).closed = false) :
    ∃ valid : ConnId → Bool,
      w.close c = { w with
        conns := update w.conns c (w.conns c).shut
        pool := w.pool.remove w.eraseEnd valid c } := by
  refine ⟨({ w with conns := update w.conns c (w.conns c).shut } : World).isValid, ?_⟩
  simp [close, h, modConn, cancelTimer, remove, Conn.shut]

@[simp] theorem futures_close : (w.close c).futures = w.futures := by
  rcases h : (w.conns c).closed with _ | _
  · obtain ⟨valid, he⟩ := w.close_of_open c h
    rw [he]
    rfl
  · rw [w.close_of_closed c h]
    rfl

theorem completions_close : (w.close c).completions = w.completions :=
  congrArg Prod.fst (w.futures_close c)

@[simp] theorem log_close : (w.close c).log = w.log := by
  rcases h : (w.conns c).closed with _ | _
  · obtain ⟨valid, he⟩ := w.close_of_open c h
    rw [he]
  · rw [w.close_of_closed c h]

/-- Closing neither writes a request on a connection nor finishes one. -/
theorem conn_close (d : ConnId) : ((w.close c).conns d).res = (w.conns d).res ∧
    ((w.close c).conns d).attempt = (w.conns d).attempt := by
  have hd : ∀ k : Conn, k.res = (w.conns c).res ∧ k.attempt = (w.conns c).attempt →
      (update w.conns c k d).res = (w.conns d).res ∧
        (update w.conns c k d).attempt = (w.conns d).attempt := by
    intro k hk
    rcases eq_or_ne d c with rfl | hne
    · rw [update_self]
      exact hk
    · rw [update_of_ne hne]
      exact ⟨rfl, rfl⟩
  rcases h : (w.conns c).closed with _ | _
  · obtain ⟨valid, he⟩ := w.close_of_open c h
    rw [he]
    exact hd _ ⟨rfl, rfl⟩
  · rw [w.close_of_closed c h]
    exact hd _ ⟨rfl, rfl⟩

@[simp] theorem res_close (d : ConnId) : ((w.close c).conns d).res = (w.conns d).res :=
  (w.conn_close c d).1

@[simp] theorem attempt_close (d : ConnId) :
    ((w.close c).conns d).attempt = (w.conns d).attempt := (w.conn_close c d).2

/-- What is available behind `close()` was available before. -/
theorem available_close : (w.close c).pool.available.Sublist w.pool.available := by
  rcases h : (w.conns c).closed with _ | _
  · obtain ⟨valid, he⟩ := w.close_of_open c h
    rw [he]
    show (w.pool.remove w.eraseEnd valid c).available.Sublist _
    rw [Pool.remove_available]
    exact List.dropWhile_sublist _
  · rw [w.close_of_closed c h]

/-! ## Settling -/

/-- Nothing to do, or the attempt is settled and its callbacks run. -/
theorem settleUnlessReady_cases (r : RespId) (o : Outcome Nat) (v : Verdict) :
    ((w.completions.attempts (w.completions.current r)).outcome ≠ none ∧
      w.settleUnlessReady c r o v = w) ∨
    ((w.completions.attempts (w.completions.current r)).outcome = none ∧
      w.settleUnlessReady c r o v =
        (w.completions.attempts (w.completions.current r)).tasks.foldl
          (fun u t => u.completionHandler (w.completions.current r) o v t)
          { w with completions := { w.completions with
              attempts := update w.completions.attempts (w.completions.current r)
                { outcome := some o, tasks := [] }
              history := w.completions.history ++
                [.settled c r (w.completions.current r)] } }) := by
  rcases hp : (w.completions.attempts (w.completions.current r)).outcome with _ | o'
  · right
    refine ⟨rfl, ?_⟩
    simp [settleUnlessReady, Completions.isReady, Future.isReady, hp, settle, Completions.settle,
      Future.settle_of_pending hp]
  · left
    refine ⟨by simp, ?_⟩
    simp [settleUnlessReady, Completions.isReady, Future.isReady, hp]

/-- Settling an attempt keeps what the bookkeeping and the callbacks keep. -/
theorem settleUnlessReady_preserves {P : World → Prop} (r : RespId) (o : Outcome Nat) (v : Verdict)
    (start : P w)
    (settled : P { w with completions := { w.completions with
      attempts := update w.completions.attempts (w.completions.current r)
        { outcome := some o, tasks := [] }
      history := w.completions.history ++ [.settled c r (w.completions.current r)] } })
    (handler : ∀ u t, t ∈ (w.completions.attempts (w.completions.current r)).tasks → P u →
      P (u.completionHandler (w.completions.current r) o v t)) :
    P (w.settleUnlessReady c r o v) := by
  rcases w.settleUnlessReady_cases c r o v with ⟨-, h⟩ | ⟨-, h⟩
  · rw [h]
    exact start
  · rw [h]
    exact List.foldlRecOn _ _ settled fun u hu t ht => handler u t ht hu

/-- What the callback on an attempt of `r` with number `n` does: it settles
`completion()`, which is an error if that is settled, or starts a retry. -/
theorem completionHandler_cases {P : World → Prop} (a : AttemptId) (o : Outcome Nat) (v : Verdict)
    (r : RespId) (n : Nat)
    (completed : ∀ o', v ≠ .retry → (o' = o ∨ ∃ e, o' = .failed e) →
      w.completions.completion r = none →
      P { w with completions := { w.completions with
        completion := update w.completions.completion r (some o')
        history := w.completions.history ++ [.asked r a n v] ++ [.completed r a] } })
    (twice : w.completions.completion r ≠ none →
      P { w with completions := w.completions.ask r a n v, fault := some .settledTwice })
    (retried : v = .retry → P (({ w with
        completions := (w.completions.ask r a n v).reset r (n + 1)
        responses := update w.responses r (w.responses r).reset
        sources := update w.sources r [] } : World).nextThen (.writeRequest r))) :
    P (w.completionHandler a o v (r, n)) := by
  have answered : ∀ o', v ≠ .retry → (o' = o ∨ ∃ e, o' = .failed e) →
      P (({ w with completions := w.completions.ask r a n v } : World).complete r a o') := by
    intro o' hv ho
    rcases hc : w.completions.completion r with _ | o''
    · simpa [complete, Completions.complete, Completions.ask, hc] using completed o' hv ho hc
    · simpa [complete, Completions.complete, Completions.ask, hc, faulted] using
        twice (by simp [hc])
  cases v with
  | accept => exact answered o (by simp) (.inl rfl)
  | retry => exact retried rfl
  | throw e => exact answered (.failed e) (by simp) (.inr ⟨e, rfl⟩)

/-- Settling an attempt makes no connection disappear. -/
theorem created_settleUnlessReady (r : RespId) (o : Outcome Nat) (v : Verdict) :
    w.pool.created ≤ (w.settleUnlessReady c r o v).pool.created := by
  refine w.settleUnlessReady_preserves c (P := fun u => w.pool.created ≤ u.pool.created) r o v
    (Nat.le_refl _) (Nat.le_refl _) ?_
  rintro u ⟨s, n⟩ - hu
  refine u.completionHandler_cases (P := fun u => w.pool.created ≤ u.pool.created) _ o v s n
    (fun _ _ _ _ => hu) (fun _ => hu) ?_
  intro _
  refine Nat.le_trans hu (le_of_eq_of_le ?_ (created_nextThen _ _))
  rfl

end World

/-! ## Read handlers -/

/-- The message names neither a length nor the chunked encoding, so the end of
its headers is where `read_next_header` gives up. -/
def Message.unframed (m : Message) : Prop :=
  m.headerValue (ascii "Content-Length") = none ∧
    ∀ t, m.headerValue (ascii "Transfer-Encoding") = some t → find (ascii "chunked") t = none

instance (m : Message) : Decidable m.unframed :=
  match h : m.headerValue (ascii "Transfer-Encoding") with
  | none => decidable_of_iff (m.headerValue (ascii "Content-Length") = none) (by simp [Message.unframed, h])
  | some t => decidable_of_iff
      (m.headerValue (ascii "Content-Length") = none ∧ find (ascii "chunked") t = none)
      (by simp [Message.unframed, h])

/-- How a read handler of connection `c`, which carries `r`, gets from one world
to another: work on the timer, the parser state and the response, and then an
ending. It gives the response up only if `gaveUp`. -/
inductive ReadOutcome (c : ConnId) (r : RespId) (v : Verdict) (gaveUp : Prop) :
    World → World → Prop
  | timer {w w' : World} (rest : ReadOutcome c r v gaveUp (w.extendTimer c) w') :
      ReadOutcome c r v gaveUp w w'
  | parser {w w' : World} (input : Bytes) (mode : Transfer) (expected : Nat)
      (rest : ReadOutcome c r v gaveUp
        (w.modConn c fun k =>
          { k with input := input, transferMode := mode, expectedBytes := expected }) w') :
      ReadOutcome c r v gaveUp w w'
  | store {w w' : World} (m : Message) (rest : ReadOutcome c r v gaveUp (w.store c r m) w') :
      ReadOutcome c r v gaveUp w w'
  | idle (w : World) : ReadOutcome c r v gaveUp w w
  | waits (w : World) (op : ReadOp) (point : op.point ≠ .status)
      (result : ∀ err, op.result ≠ some (.error err)) :
      ReadOutcome c r v gaveUp w (w.modConn c fun k => { k with reads := k.reads ++ [op] })
  | escaped (w : World) (e : Exn) : ReadOutcome c r v gaveUp w (w.escape c e)
  | givenUp (w : World) (err : Bytes) (h : gaveUp) :
      ReadOutcome c r v gaveUp w ((w.close c).failResponse c err v)
  | finished (w : World) (data : Bytes) :
      ReadOutcome c r v gaveUp w (w.extractNextBodyChunk c data v)

namespace World

variable {w : World} {c : ConnId} {r : RespId} {v : Verdict} {gaveUp : Prop}

theorem conns_extendTimer : (w.extendTimer c).conns =
    update w.conns c { w.conns c with
      waits := (w.conns c).waits.map Wait.cancel ++ [{ target := w.stallTarget c }] } := rfl

@[simp] theorem res_extendTimer (d : ConnId) :
    ((w.extendTimer c).conns d).res = (w.conns d).res := by
  rw [conns_extendTimer]
  rcases eq_or_ne d c with rfl | h
  · simp
  · simp [h]

@[simp] theorem conns_store (m : Message) : (w.store c r m).conns = w.conns := rfl

theorem readDelimited_outcome (p : Point) (hp : p ≠ .status) :
    ReadOutcome c r v gaveUp w (w.readDelimited c p) := by
  refine .waits w _ hp ?_
  intro err h
  cases hf : find crlf (w.conns c).input <;> simp [hf] at h

theorem read_outcome (wanted : Nat) (p : Point) (hp : p ≠ .status)
    (code : World → Bytes → World)
    (hcode : ∀ w data, (w.conns c).res = some r → ReadOutcome c r v gaveUp w (code w data))
    (hr : (w.conns c).res = some r) : ReadOutcome c r v gaveUp w (w.read c wanted p code) := by
  rw [read]
  split
  · exact .waits w _ hp (by simp)
  · refine .parser ((w.conns c).input.drop wanted) (w.conns c).transferMode
      (w.conns c).expectedBytes ?_
    exact hcode _ _ (by simp [modConn, hr])

theorem onBody_outcome (data : Bytes) : ReadOutcome c r v gaveUp w (w.onBody c data v) :=
  .timer (.finished _ data)

theorem readNextBodyChunk_outcome (hr : (w.conns c).res = some r) :
    ReadOutcome c r v gaveUp w (w.readNextBodyChunk c v) := by
  rw [readNextBodyChunk]
  split
  · exact readDelimited_outcome .chunkSize (by simp)
  · exact read_outcome _ .body (by simp) _ (fun _ data _ => onBody_outcome data) hr

theorem onChunkData_outcome (data : Bytes) (hr : (w.conns c).res = some r) :
    ReadOutcome c r v gaveUp w (w.onChunkData c data v) := by
  simp only [onChunkData, hr]
  exact .store _ (.timer (readNextBodyChunk_outcome (by simp [hr])))

theorem onChunkSize_outcome (line : Bytes) (hr : (w.conns c).res = some r) :
    ReadOutcome c r v gaveUp w (w.onChunkSize c line v) := by
  refine .timer ?_
  simp only [onChunkSize]
  rcases hs : stoi 16 line with e | n
  · exact .escaped _ _
  · dsimp only
    split
    · refine .parser ((w.extendTimer c).conns c).input ((w.extendTimer c).conns c).transferMode
        (toSize n) ?_
      refine read_outcome _ .chunkData (by simp) _ (fun _ data h => onChunkData_outcome data h) ?_
      simp [modConn, hr]
    · exact readDelimited_outcome .last (by simp)

theorem onLast_outcome : ReadOutcome c r v gaveUp w (w.onLast c v) := .timer (.finished _ [])

theorem headersEnd_outcome (hr : (w.conns c).res = some r) :
    ReadOutcome c r v (w.responses r).unframed w (w.headersEnd c r v) := by
  rcases hcl : (w.responses r).headerValue (ascii "Content-Length") with _ | t
  · rcases hte : (w.responses r).headerValue (ascii "Transfer-Encoding") with _ | t
    · simp only [headersEnd, hcl, hte]
      exact .givenUp w _ ⟨hcl, by simp [hte]⟩
    · rcases hf : find (ascii "chunked") t with _ | i
      · simp only [headersEnd, hcl, hte, hf, if_true]
        exact .givenUp w _ ⟨hcl, by simp [hte, hf]⟩
      · simp only [headersEnd, hcl, hte, hf, reduceCtorEq, if_false]
        refine .parser (w.conns c).input .chunked 0 ?_
        exact readNextBodyChunk_outcome (by simp [modConn, hr])
  · rcases hs : stoi 10 t with e | n
    · simp only [headersEnd, hcl, hs]
      exact .escaped w _
    · simp only [headersEnd, hcl, hs]
      refine .parser (w.conns c).input .length (toSize n) ?_
      exact readNextBodyChunk_outcome (by simp [modConn, hr])

theorem onHeader_outcome (line : Bytes) (hr : (w.conns c).res = some r) :
    ReadOutcome c r v (line = [] ∧ (w.responses r).unframed) w (w.onHeader c line v) := by
  have hr' : ((w.extendTimer c).conns c).res = some r := by simp [hr]
  refine .timer ?_
  simp only [onHeader, hr']
  by_cases hl : line = []
  · simp only [hl, if_true, true_and]
    exact headersEnd_outcome hr'
  · simp only [hl, if_false]
    rcases (((w.extendTimer c).responses r).parseHeaderLine line) with e | m
    · exact .escaped _ _
    · exact .store m (readDelimited_outcome .header (by simp))

/-- **A read handler that is not at a status line.** On a result that is not an
error, what it does is a `ReadOutcome`; it can only give up on the empty line
behind headers that frame nothing. -/
theorem finishRead_outcome (op : ReadOp) (pos : Nat) (hp : op.point ≠ .status)
    (hr : (w.conns c).res = some r) :
    ReadOutcome c r v
      (op.point = .header ∧ (w.conns c).input.take pos = [] ∧ (w.responses r).unframed)
      w (w.finishRead c op (.ok pos) v) := by
  obtain ⟨point, wanted, result⟩ := op
  cases wanted with
  | none =>
    refine .parser ((w.conns c).input.drop (pos + 2)) (w.conns c).transferMode
      (w.conns c).expectedBytes ?_
    have hr' : ((w.modConn c fun k => { k with input := k.input.drop (pos + 2) }).conns c).res =
        some r := by simp [modConn, hr]
    cases point with
    | status => exact absurd rfl hp
    | header =>
      simp only [true_and]
      exact onHeader_outcome _ hr'
    | chunkSize => exact onChunkSize_outcome _ hr'
    | last => exact onLast_outcome
    | chunkData => exact .idle _
    | body => exact .idle _
  | some n =>
    refine .parser ((w.conns c).input.drop n) (w.conns c).transferMode
      (w.conns c).expectedBytes ?_
    have hr' : ((w.modConn c fun k => { k with input := k.input.drop n }).conns c).res =
        some r := by simp [modConn, hr]
    cases point with
    | chunkData => exact onChunkData_outcome _ hr'
    | body => exact onBody_outcome _
    | status => exact absurd rfl hp
    | header => exact .idle _
    | chunkSize => exact .idle _
    | last => exact .idle _

/-- The handler of a status line: no request is waiting and the connection
closes, or the line is parsed into the response. -/
theorem finishRead_status (op : ReadOp) (pos : Nat) (hp : op.point = .status) :
    ∃ input, let u := w.modConn c fun k => { k with input := input }
      w.finishRead c op (.ok pos) v = u ∨
      ((w.conns c).res = none ∧ w.finishRead c op (.ok pos) v = u.close c) ∨
      ∃ r parsed, (w.conns c).res = some r ∧
        ((∃ e, parsed.2 = some e ∧ w.finishRead c op (.ok pos) v =
            ((u.extendTimer c).storeStatus c r parsed).escape c e) ∨
         (parsed.2 = none ∧ w.finishRead c op (.ok pos) v =
            ((u.extendTimer c).storeStatus c r parsed).readDelimited c .header)) := by
  obtain ⟨point, wanted, result⟩ := op
  cases hp
  cases wanted with
  | some n => exact ⟨_, .inl rfl⟩
  | none =>
    refine ⟨(w.conns c).input.drop (pos + 2), .inr ?_⟩
    rcases hr : (w.conns c).res with _ | r
    · left
      refine ⟨rfl, ?_⟩
      simp only [finishRead, onLine, onStatus, modConn, update_self, hr]
    · right
      refine ⟨r, ?_⟩
      simp only [finishRead, onLine, onStatus, modConn, update_self, hr]
      split
      · rename_i e he
        exact ⟨_, trivial, .inl ⟨e, he, rfl⟩⟩
      · rename_i he
        exact ⟨_, trivial, .inr ⟨he, rfl⟩⟩

/-- **The end of a response.** It may be stored once more, `res_` is cleared, and
then the connection closes behind the settled attempt, or reads the next status
line, is released, and the attempt is settled. -/
theorem extractNextBodyChunk_cases {P : World → Prop} (data : Bytes)
    (hr : (w.conns c).res = some r)
    (closing : ∀ u s, (u = w ∨ ∃ m, u = w.store c r m) →
      P (((((u.modConn c fun k => { k with res := none }).note (.finished c r)).settleUnlessReady c
        r (.done s) v).close c)))
    (keeping : ∀ u s, (u = w ∨ ∃ m, u = w.store c r m) →
      P ((((((u.modConn c fun k => { k with res := none }).note (.finished c r)).handleResponse
        c).release c).settleUnlessReady c r (.done s) v))) :
    P (w.extractNextBodyChunk c data v) := by
  simp only [extractNextBodyChunk, hr]
  split <;> rename_i hm <;> split
  · exact closing _ _ (.inr ⟨_, rfl⟩)
  · exact keeping _ _ (.inr ⟨_, rfl⟩)
  · exact closing _ _ (.inl rfl)
  · exact keeping _ _ (.inl rfl)

end World

end AsioProtocols
